import FormSchema.Decoding.Container
import FormSchema.Decoding.NumberText

/-!
# Reading a value from a JSON text

`Json.read` reads a whole text and `Json.readLeading` the value at its beginning,
whatever follows.  Containers may be nested 127 deep.

A value of one particular kind is read by `Reader.stringValue` and its companions.
When the text has another kind of value there, the fault lies behind that value if it
is a scalar, and before it if it is a container.
-/

namespace FormSchema

namespace Reader

/-- How many containers may be open at once. -/
def nestingLimit : Nat :=
  127

/-- Refuse to open another container. -/
def tooDeep {α : Type} : Reader α :=
  failAhead (.malformed .nestedTooDeep)

/-- Read a value that is neither a list nor an object and starts with the given
character, which comes next. -/
def scalar (c : Char) : Reader Json := do
  if c = 'n' then
    advance
    literal ['u', 'l', 'l']
    return .null
  else if c = 't' then
    advance
    literal ['r', 'u', 'e']
    return .bool true
  else if c = 'f' then
    advance
    literal ['a', 'l', 's', 'e']
    return .bool false
  else if c = '-' then
    advance
    return .number (← number true)
  else if c.isDigit then
    return .number (← number false)
  else if c = '"' then
    advance
    return .string (← string)
  else
    failAhead (.malformed .valueExpected)

/-- Read a value, with the given readers for lists and objects. -/
def valueWith (listReader objectReader : Reader Json) : Reader Json := do
  skipBlanks
  match ← peek with
  | none => failHere (.malformed .endInValue)
  | some c =>
      if c = '[' then listReader
      else if c = '\x7b' then objectReader
      else scalar c

/-- Read a value inside which at most the given number of containers may be open. -/
def value : Nat → Reader Json
  | 0 => valueWith tooDeep tooDeep
  | levels + 1 =>
      valueWith (do return .array (← list (value levels)))
        (object [] (fun gathered name => do return .ok (Members.put name (← value levels) gathered))
          fun gathered => .ok (.object gathered))

/-- Refuse the value that comes next because another kind of value is expected. -/
def wrongKind {α : Type} (expected : Expected) : Reader α := do
  skipBlanks
  match ← peek with
  | none => failHere (.malformed .endInValue)
  | some c =>
      if c = '[' then failHere (.wrongKind .sequence expected)
      else if c = '\x7b' then failHere (.wrongKind .map expected)
      else do
        let found ← scalar c
        failHere (.wrongKind (.ofJson found) expected)

/-- Read a string. -/
def stringValue (expected : Expected) : Reader String := do
  skipBlanks
  if (← peek) = some '"' then
    advance
    string
  else
    wrongKind expected

/-- Read a boolean. -/
def booleanValue (expected : Expected) : Reader Bool := do
  skipBlanks
  let next ← peek
  if next = some 't' then do advance; literal ['r', 'u', 'e']; return true
  else if next = some 'f' then do advance; literal ['a', 'l', 's', 'e']; return false
  else wrongKind expected

/-- Read null. -/
def nullValue (expected : Expected) : Reader Unit := do
  skipBlanks
  if (← peek) = some 'n' then
    advance
    literal ['u', 'l', 'l']
  else
    wrongKind expected

/-- Read a list of strings, with the given number of containers that may be open. -/
def stringList (levels : Nat) (expected : Expected) : Reader (List String) := do
  skipBlanks
  if (← peek) = some '[' then
    if levels = 0 then tooDeep else list (stringValue .string)
  else
    wrongKind expected

/-- Read an object with the given reader, which starts at its opening brace. -/
def objectOr {α : Type} (expected : Expected) (objectReader : Reader α) : Reader α := do
  skipBlanks
  if (← peek) = some '\x7b' then objectReader else wrongKind expected

/-- Nothing but blanks may follow. -/
def finished : Reader Unit := do
  skipBlanks
  match ← peek with
  | none => return
  | some _ => failAhead (.malformed .trailingCharacters)

end Reader

/-- The value at the beginning of a text, whatever follows it. -/
def Json.readLeading (text : String) : Except DecodeError Json :=
  ((Reader.value Reader.nestingLimit).run text).map Prod.fst

/-- The value that makes up a whole text. -/
def Json.read (text : String) : Except DecodeError Json :=
  ((do let value ← Reader.value Reader.nestingLimit; Reader.finished; return value : Reader Json)
    |>.run text).map Prod.fst

end FormSchema
