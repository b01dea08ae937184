import FormSchema.Binary64
import FormSchema.Members

/-!
# JSON values

Members of an object keep the order in which they were written, and so does every
list derived from them.  A name is meant to occur once in an object; `Members.put`
is how readers keep it so.

Numbers come in two kinds.  An integer that a 64-bit word can hold stays exact, and
every other number is a double.  The kinds remain apart even when their values are
equal, because they are written differently.
-/

namespace FormSchema

/-- A JSON number: an exact integer or a double. -/
inductive Number where
  | integer (value : Int)
  | double (value : Binary64)
  deriving DecidableEq, Inhabited

/-- A JSON value. -/
inductive Json where
  | null
  | bool (value : Bool)
  | number (value : Number)
  | string (value : String)
  | array (items : List Json)
  | object (members : List (String × Json))
  deriving Inhabited

namespace Number

/-- The double nearest to a number, if that is finite. -/
def toDouble? : Number → Option Binary64
  | .integer value => Binary64.ofInt value
  | .double value => some value

end Number

namespace Json

/-- A natural number as a value. -/
def ofNat (value : Nat) : Json :=
  .number (.integer value)

/-- A list of strings as a value. -/
def ofStrings (values : List String) : Json :=
  .array (values.map .string)

/-- The value of an object's member. -/
def member? (name : String) : Json → Option Json
  | .object members => members.lookup name
  | _ => none

/-- The text of a string value. -/
def string? : Json → Option String
  | .string value => some value
  | _ => none

mutual

/-- The nesting height: scalars and empty containers have height zero. -/
def height : Json → Nat
  | .array items => heightOfItems items
  | .object members => heightOfMembers members
  | _ => 0

/-- One more than the greatest height of the items, or zero without items. -/
def heightOfItems : List Json → Nat
  | [] => 0
  | item :: rest => max (item.height + 1) (heightOfItems rest)

/-- One more than the greatest height of the members, or zero without members. -/
def heightOfMembers : List (String × Json) → Nat
  | [] => 0
  | (_, value) :: rest => max (value.height + 1) (heightOfMembers rest)

end

end Json

end FormSchema
