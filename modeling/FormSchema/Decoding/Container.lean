import FormSchema.Decoding.StringText

/-!
# Lists and objects in a JSON text

The punctuation of lists and objects is read here once, for every kind of content.
`Reader.list` takes a reader for the items, and `Reader.object` a step that reads the
value of a member and adds it to what has been gathered.

A step may also find that the members contradict a rule of the object as a whole.
Such a fault has no position of its own.  It is placed behind the object's closing
brace if that comes next, and otherwise before whatever comes next.
-/

namespace FormSchema.Reader

/-- Give the position of the reader to a fault of the object that is being read, after
its closing brace if that comes next. -/
def failObject {α : Type} (error : DecodeError) : Reader α := do
  skipBlanks
  if (← peek) = some '\x7d' then
    advance
  throw { error with position := some (← get).position }

/-- Move to the opening quote of the next member; is there one? -/
def nextMember (first : Bool) : Reader Bool := do
  skipBlanks
  match ← peek with
  | none => failHere (.malformed .endInObject)
  | some '\x7d' => return false
  | some c =>
      if first then
        if c = '"' then return true else failAhead (.malformed .keyNotString)
      else if c = ',' then
        advance
        skipBlanks
        match ← peek with
        | none => failHere (.malformed .endInValue)
        | some '"' => return true
        | some '\x7d' => failAhead (.malformed .trailingComma)
        | some _ => failAhead (.malformed .keyNotString)
      else
        failAhead (.malformed .objectSeparatorExpected)

/-- Read the name of the next member, if there is one. -/
def nextName (first : Bool) : Reader (Option String) :=
  under .unknown do
    if ← nextMember first then
      advance
      return some (← string)
    else
      return none

/-- Consume the colon behind a name. -/
def colon : Reader Unit := do
  skipBlanks
  match ← peek with
  | none => failHere (.malformed .endInObject)
  | some ':' => advance
  | some _ => failAhead (.malformed .colonExpected)

/-- Read members up to the closing brace, which stays ahead.  Every member takes at
least one character, so `limit` may be the number of characters ahead. -/
def members {σ : Type} (step : σ → String → Reader (Except DecodeError σ)) :
    Nat → Bool → σ → Reader σ
  | 0, _, _ => failHere (.malformed .endInObject)
  | limit + 1, first, gathered => do
      match ← nextName first with
      | none => return gathered
      | some name =>
          colon
          match ← under (.key name) (step gathered name) with
          | .ok gathered => members step limit false gathered
          | .error error => failObject error

/-- Read an object whose opening brace comes next, and turn what was gathered from its
members into a result. -/
def object {σ α : Type} (start : σ) (step : σ → String → Reader (Except DecodeError σ))
    (finish : σ → Except DecodeError α) : Reader α := do
  advance
  let gathered ← members step ((← get).rest.length + 1) true start
  match finish gathered with
  | .ok result =>
      advance
      return result
  | .error error => failObject error

/-- Move to the next item; is there one? -/
def nextItem (first : Bool) : Reader Bool := do
  skipBlanks
  match ← peek with
  | none => failHere (.malformed .endInList)
  | some ']' => return false
  | some c =>
      if first then
        return true
      else if c = ',' then
        advance
        skipBlanks
        match ← peek with
        | none => failHere (.malformed .endInValue)
        | some ']' => failAhead (.malformed .trailingComma)
        | some _ => return true
      else
        failAhead (.malformed .listSeparatorExpected)

/-- Read items up to the closing bracket, which stays ahead.  Every item takes at least
one character, so `limit` may be the number of characters ahead. -/
def items {α : Type} (item : Reader α) : Nat → Nat → Reader (List α)
  | 0, _ => failHere (.malformed .endInList)
  | limit + 1, position => do
      if ← nextItem (position = 0) then
        let first ← under (.position position) item
        let others ← items item limit (position + 1)
        return first :: others
      else
        return []

/-- Read a list whose opening bracket comes next. -/
def list {α : Type} (item : Reader α) : Reader (List α) := do
  advance
  let read ← items item ((← get).rest.length + 1) 0
  advance
  return read

end FormSchema.Reader
