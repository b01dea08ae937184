import FormSchema.Decoding.Fault

/-!
# A place in a text that is being read

A `Cursor` is what lies ahead in a text together with the position reached.  Columns
count bytes, so a character advances the column by its UTF-8 length.

Errors are placed either where the reader stands (`failHere`) or one byte further
(`failAhead`), which is where the offending byte ends; at the end of the text the two
are the same.
-/

namespace FormSchema

/-- The position behind a character that is read in full. -/
def Position.after (position : Position) (c : Char) : Position :=
  if c = '\n' then
    ⟨position.line + 1, 0⟩
  else
    { position with column := position.column + c.utf8Size }

/-- The position behind the first byte of a character. -/
def Position.afterByte (position : Position) (c : Char) : Position :=
  if c = '\n' then
    ⟨position.line + 1, 0⟩
  else
    { position with column := position.column + 1 }

/-- The position behind the first `count` bytes of a text. -/
def Position.afterBytes (position : Position) : Nat → List Char → Position
  | 0, _ => position
  | _, [] => position
  | count + 1, c :: rest =>
      if c.utf8Size ≤ count + 1 then
        (position.after c).afterBytes (count + 1 - c.utf8Size) rest
      else
        { position with column := position.column + (count + 1) }
  termination_by structural _ text => text

/-- What lies ahead in a text, and the position of its first character. -/
structure Cursor where
  rest : List Char
  position : Position
  deriving Inhabited

namespace Cursor

/-- The beginning of a text. -/
def start (text : String) : Cursor :=
  ⟨text.toList, ⟨1, 0⟩⟩

/-- The position one byte further. -/
def ahead (cursor : Cursor) : Position :=
  match cursor.rest with
  | [] => cursor.position
  | c :: _ => cursor.position.afterByte c

/-- Split a text behind its longest beginning of characters that satisfy the test. -/
def spanFrom (test : Char → Bool) : List Char → Position → List Char × Cursor
  | [], position => ([], ⟨[], position⟩)
  | c :: rest, position =>
      if test c then
        let split := spanFrom test rest (position.after c)
        (c :: split.1, split.2)
      else
        ([], ⟨c :: rest, position⟩)

/-- The longest beginning of characters that satisfy the test, and the cursor behind
it. -/
def span (test : Char → Bool) (cursor : Cursor) : List Char × Cursor :=
  spanFrom test cursor.rest cursor.position

end Cursor

/-- A computation that reads from a text and may fail. -/
abbrev Reader :=
  StateT Cursor (Except DecodeError)

namespace Reader

/-- The blanks between the parts of a JSON text. -/
def isBlank (c : Char) : Bool :=
  c = ' ' || c = '\t' || c = '\n' || c = '\r'

/-- Fail with a fault at the given position. -/
def failAt {α : Type} (position : Position) (fault : Fault) : Reader α :=
  throw ⟨[], fault, some position⟩

/-- Fail where the reader stands. -/
def failHere {α : Type} (fault : Fault) : Reader α := do
  failAt (← get).position fault

/-- Fail one byte further. -/
def failAhead {α : Type} (fault : Fault) : Reader α := do
  failAt (← get).ahead fault

/-- Let errors appear one step further in. -/
def under {α : Type} (step : PathStep) (reader : Reader α) : Reader α :=
  fun cursor => (reader cursor).mapError (·.under step)

/-- The next character, which is not consumed. -/
def peek : Reader (Option Char) := do
  return (← get).rest.head?

/-- Consume one character. -/
def advance : Reader Unit :=
  modify fun cursor =>
    match cursor.rest with
    | [] => cursor
    | c :: rest => ⟨rest, cursor.position.after c⟩

/-- Consume the longest beginning of characters that satisfy the test. -/
def takeWhile (test : Char → Bool) : Reader (List Char) :=
  modifyGet fun cursor => cursor.span test

/-- Consume the blanks ahead. -/
def skipBlanks : Reader Unit := do
  let _ ← takeWhile isBlank

/-- Consume the given characters, which complete a word such as `true`. -/
def literal : List Char → Reader Unit
  | [] => return
  | expected :: others => do
      match ← peek with
      | none => failHere (.malformed .endInValue)
      | some c =>
          if c = expected then do
            advance
            literal others
          else
            failAhead (.malformed .literalExpected)

/-- Run a reader on a text from its beginning. -/
def run {α : Type} (reader : Reader α) (text : String) : Except DecodeError (α × Cursor) :=
  reader (.start text)

end Reader

end FormSchema
