import FormSchema.Decoding.Path
import FormSchema.Json.Printer
import FormSchema.Primitive
import FormSchema.Text.Quoted

/-!
# What can be wrong with a document

A `Fault` is the reason why a text is not JSON, or why a value does not have the
shape that is expected of it.  A `DecodeError` adds the path to the fault and, for a
value that is read from text, its position there.
-/

namespace FormSchema

/-- The reasons why a text is not a JSON value. -/
inductive SyntaxFault where
  | endInList
  | endInObject
  | endInString
  | endInValue
  | colonExpected
  | listSeparatorExpected
  | objectSeparatorExpected
  | literalExpected
  | valueExpected
  | invalidEscape
  | invalidNumber
  | numberOutOfRange
  | loneSurrogate
  | unfinishedSurrogatePair
  | controlCharacter
  | keyNotString
  | trailingComma
  | trailingCharacters
  | nestedTooDeep
  deriving DecidableEq, Inhabited

/-- What the reader wanted where it found a value of another kind. -/
inductive Expected where
  | schemaObject
  | map
  | string
  | sequence
  | boolean
  | discriminatorObject
  | stringOrMap
  | unit
  | set
  | finding
  | suiteCase
  deriving DecidableEq, Inhabited

/-- What the reader found, as far as messages tell. -/
inductive Found where
  | null
  | bool (value : Bool)
  | number (value : Number)
  | string (value : String)
  | sequence
  | map
  deriving DecidableEq, Inhabited

/-- The reasons why reading fails. -/
inductive Fault where
  | malformed (fault : SyntaxFault)
  | wrongKind (found : Found) (expected : Expected)
  | missingField (name : String)
  | duplicateField (name : String)
  | emptyEnum
  | duplicateEnumValue (value : String)
  | unknownPrimitive (name : String)
  /-- An object in place of a type name that does not have exactly one member. -/
  | notSingleMember
  /-- A list in place of a structure, with an item for only some of its fields. -/
  | tooFewItems (count : Nat) (expected : Expected) (fields : Nat)
  /-- A list in place of a structure, with more items than the structure has fields. -/
  | tooManyItems (count : Nat)
  deriving DecidableEq, Inhabited

namespace SyntaxFault

/-- The message for a syntax fault. -/
def message : SyntaxFault → String
  | endInList => "EOF while parsing a list"
  | endInObject => "EOF while parsing an object"
  | endInString => "EOF while parsing a string"
  | endInValue => "EOF while parsing a value"
  | colonExpected => "expected `:`"
  | listSeparatorExpected => "expected `,` or `]`"
  | objectSeparatorExpected => "expected `,` or `\x7d`"
  | literalExpected => "expected ident"
  | valueExpected => "expected value"
  | invalidEscape => "invalid escape"
  | invalidNumber => "invalid number"
  | numberOutOfRange => "number out of range"
  | loneSurrogate => "lone leading surrogate in hex escape"
  | unfinishedSurrogatePair => "unexpected end of hex escape"
  | controlCharacter => "control character (\\u0000-\\u001F) found while parsing a string"
  | keyNotString => "key must be a string"
  | trailingComma => "trailing comma"
  | trailingCharacters => "trailing characters"
  | nestedTooDeep => "recursion limit exceeded"

end SyntaxFault

/-- What was expected, as messages name it. -/
def Expected.text : Expected → String
  | schemaObject => "a schema object"
  | map => "a map"
  | string => "a string"
  | sequence => "a sequence"
  | boolean => "a boolean"
  | discriminatorObject => "a discriminator object with `tag` and `mapping`"
  | stringOrMap => "string or map"
  | unit => "unit"
  | set => "a set"
  | finding => "struct ValidationError"
  | suiteCase => "struct Case"

namespace Found

/-- What kind of value is this? -/
def ofJson : Json → Found
  | .null => .null
  | .bool value => .bool value
  | .number value => .number value
  | .string value => .string value
  | .array _ => .sequence
  | .object _ => .map

/-- What was found, as messages name it. -/
def text : Found → String
  | null => "null"
  | bool value => "boolean `" ++ toString value ++ "`"
  | number (.integer value) => "integer `" ++ toString value ++ "`"
  | number (.double value) => "floating point `" ++ value.text ++ "`"
  | string value => "string " ++ Text.shown value
  | sequence => "sequence"
  | map => "map"

end Found

/-- The names of all primitives, between backquotes and separated by commas. -/
def primitiveChoices : String :=
  String.intercalate ", " (Primitive.all.map fun primitive => "`" ++ primitive.name ++ "`")

/-- The message for a fault, without its place. -/
def Fault.message : Fault → String
  | malformed fault => fault.message
  | wrongKind found expected => "invalid type: " ++ found.text ++ ", expected " ++ expected.text
  | missingField name => "missing field `" ++ name ++ "`"
  | duplicateField name => "duplicate field `" ++ name ++ "`"
  | emptyEnum => "invalid length 0, expected a non-empty array of strings"
  | duplicateEnumValue value => "duplicate enum value `" ++ value ++ "`"
  | unknownPrimitive name =>
      "unknown variant `" ++ name ++ "`, expected one of " ++ primitiveChoices
  | notSingleMember => "invalid value: map, expected map with a single key"
  | tooFewItems count expected fields =>
      "invalid length " ++ toString count ++ ", expected " ++ expected.text ++ " with " ++
        toString fields ++ " elements"
  | tooManyItems count =>
      "invalid length " ++ toString count ++ ", expected fewer elements in array"

/-- A position in a text: the line, from one, and the number of bytes before it on that
line. -/
structure Position where
  line : Nat
  column : Nat
  deriving DecidableEq, Inhabited

/-- The words that give a position at the end of a message. -/
def Position.suffix (position : Position) : String :=
  " at line " ++ toString position.line ++ " column " ++ toString position.column

/-- A fault with its path and, in a text, its position. -/
structure DecodeError where
  path : List PathStep
  fault : Fault
  position : Option Position
  deriving DecidableEq, Inhabited

namespace DecodeError

/-- An error at the place where reading started. -/
def here (fault : Fault) : DecodeError :=
  ⟨[], fault, none⟩

/-- The same error, seen from one step further out. -/
def under (step : PathStep) (error : DecodeError) : DecodeError :=
  { error with path := step :: error.path }

/-- The message: the fault and, in a text, its position. -/
def message (error : DecodeError) : String :=
  error.fault.message ++
    (match error.position with
      | some position => position.suffix
      | none => "")

/-- The message together with the path. -/
def display (error : DecodeError) : String :=
  "at JSON path " ++ renderPath error.path ++ " → " ++ error.message

end DecodeError

end FormSchema
