import FormSchema.Json.Basic
import FormSchema.Binary64.Shortest

/-!
# Writing JSON

Two layouts of the same value: `Json.compact` without any blank, and `Json.pretty`
with one item to a line, two spaces to a level, and nothing between the brackets of
an empty container.

In strings only the quote, the backslash and the control characters below U+0020
are escaped, so no layout of a string ever contains a line break.
-/

namespace FormSchema

/-- The hexadecimal digit of a number below sixteen. -/
def hexDigit (value : Nat) : Char :=
  Nat.digitChar value

namespace Json

/-- A character as it stands inside a written string. -/
def escapedChar (c : Char) : List Char :=
  if c = '"' then ['\\', '"']
  else if c = '\\' then ['\\', '\\']
  else if c = '\x08' then ['\\', 'b']
  else if c = '\x0c' then ['\\', 'f']
  else if c = '\n' then ['\\', 'n']
  else if c = '\r' then ['\\', 'r']
  else if c = '\t' then ['\\', 't']
  else if c.toNat < 32 then
    ['\\', 'u', '0', '0', hexDigit (c.toNat / 16), hexDigit (c.toNat % 16)]
  else [c]

/-- A string between quotes. -/
def quoted (value : String) : List Char :=
  '"' :: value.toList.flatMap escapedChar ++ ['"']

end Json

/-- The text of a number: decimal digits for an integer, and the shortest text that
reads back for a double. -/
def Number.text : Number → String
  | .integer value => toString value
  | .double value => value.text

namespace Json

/-- The text of a value other than an array or an object. -/
def scalarText : Json → List Char
  | .null => "null".toList
  | .bool true => "true".toList
  | .bool false => "false".toList
  | .number value => value.text.toList
  | .string value => quoted value
  | .array _ => []
  | .object _ => []

mutual

/-- The characters of the compact layout. -/
def compactChars : Json → List Char
  | .array [] => ['[', ']']
  | .array (first :: rest) => '[' :: first.compactChars ++ compactItems rest ++ [']']
  | .object [] => ['\x7b', '\x7d']
  | .object ((name, value) :: rest) =>
      '\x7b' :: quoted name ++ ':' :: value.compactChars ++ compactMembers rest ++ ['\x7d']
  | scalar => scalarText scalar

/-- Each item behind a comma. -/
def compactItems : List Json → List Char
  | [] => []
  | item :: rest => ',' :: item.compactChars ++ compactItems rest

/-- Each member behind a comma. -/
def compactMembers : List (String × Json) → List Char
  | [] => []
  | (name, value) :: rest =>
      ',' :: quoted name ++ ':' :: value.compactChars ++ compactMembers rest

end

/-- A line break and the indentation of a level. -/
def newLine (level : Nat) : List Char :=
  '\n' :: List.replicate (2 * level) ' '

mutual

/-- The characters of the indented layout, for a value that stands on the given
level. -/
def prettyChars (level : Nat) : Json → List Char
  | .array [] => ['[', ']']
  | .array (first :: rest) =>
      '[' :: newLine (level + 1) ++ first.prettyChars (level + 1) ++
        prettyItems (level + 1) rest ++ newLine level ++ [']']
  | .object [] => ['\x7b', '\x7d']
  | .object ((name, value) :: rest) =>
      '\x7b' :: newLine (level + 1) ++ quoted name ++ ':' :: ' ' ::
        value.prettyChars (level + 1) ++ prettyMembers (level + 1) rest ++
        newLine level ++ ['\x7d']
  | scalar => scalarText scalar

/-- Each item behind a comma, on a line of its own. -/
def prettyItems (level : Nat) : List Json → List Char
  | [] => []
  | item :: rest => ',' :: newLine level ++ item.prettyChars level ++ prettyItems level rest

/-- Each member behind a comma, on a line of its own. -/
def prettyMembers (level : Nat) : List (String × Json) → List Char
  | [] => []
  | (name, value) :: rest =>
      ',' :: newLine level ++ quoted name ++ ':' :: ' ' :: value.prettyChars level ++
        prettyMembers level rest

end

/-- The value on one line, without blanks. -/
def compact (value : Json) : String :=
  String.ofList value.compactChars

/-- The value with one item or member to a line. -/
def pretty (value : Json) : String :=
  String.ofList (value.prettyChars 0)

end Json

end FormSchema
