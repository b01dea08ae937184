import FormSchema.Decoding.Fault

/-!
# Reading simple kinds of values

Strings, booleans and lists of strings, as parts of something larger.
-/

namespace FormSchema.Decode

/-- A value of the wrong kind. -/
def wrongKind {α : Type} (value : Json) (expected : Expected) : Except DecodeError α :=
  .error (.here (.wrongKind (.ofJson value) expected))

/-- Let errors appear one step further in. -/
def under {α : Type} (step : PathStep) (result : Except DecodeError α) : Except DecodeError α :=
  result.mapError (·.under step)

/-- A string. -/
def string : Json → Except DecodeError String
  | .string value => .ok value
  | other => wrongKind other .string

/-- A boolean. -/
def boolean : Json → Except DecodeError Bool
  | .bool value => .ok value
  | other => wrongKind other .boolean

/-- The items of a list, the first of which has the given position, each read in the
same way. -/
def items {α : Type} (item : Json → Except DecodeError α) (position : Nat) :
    List Json → Except DecodeError (List α)
  | [] => .ok []
  | value :: rest => do
      let first ← under (.position position) (item value)
      let others ← items item (position + 1) rest
      return first :: others

/-- A list whose items are all read in the same way. -/
def list {α : Type} (expected : Expected) (item : Json → Except DecodeError α) :
    Json → Except DecodeError (List α)
  | .array values => items item 0 values
  | other => wrongKind other expected

/-- A list of strings. -/
def strings (expected : Expected) : Json → Except DecodeError (List String) :=
  list expected string

end FormSchema.Decode
