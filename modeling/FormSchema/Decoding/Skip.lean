import FormSchema.Decoding.Container
import FormSchema.Decoding.NumberText

/-!
# Skipping a value in a JSON text

A value that nobody wants is only scanned for its end.  Containers that are open are
kept on a stack, so their nesting is not limited, and less is checked than when the
value is read: numbers may be too large, and surrogates need not form pairs.
-/

namespace FormSchema

/-- A container that has been opened. -/
inductive Bracket where
  | square
  | curly
  deriving DecidableEq, Inhabited

namespace Bracket

/-- The character that closes a container. -/
def closing : Bracket → Char
  | square => ']'
  | curly => '\x7d'

/-- The fault when neither a comma nor the closing character follows a value. -/
def separatorFault : Bracket → SyntaxFault
  | square => .listSeparatorExpected
  | curly => .objectSeparatorExpected

/-- The fault when the text ends inside the container. -/
def endFault : Bracket → SyntaxFault
  | square => .endInList
  | curly => .endInObject

end Bracket

namespace Reader

/-- Skip a scalar, or open a container. -/
def skipStart : Reader (Option Bracket) := do
  skipBlanks
  match ← peek with
  | none => failHere (.malformed .endInValue)
  | some c =>
      if c = 'n' then do advance; literal ['u', 'l', 'l']; return none
      else if c = 't' then do advance; literal ['r', 'u', 'e']; return none
      else if c = 'f' then do advance; literal ['a', 'l', 's', 'e']; return none
      else if c = '-' then do advance; skipNumber; return none
      else if c.isDigit then do skipNumber; return none
      else if c = '"' then do advance; skipString; return none
      else if c = '[' then do advance; return some .square
      else if c = '\x7b' then do advance; return some .curly
      else failAhead (.malformed .valueExpected)

/-- Skip the name and the colon of a member. -/
def skipName : Reader Unit := do
  skipBlanks
  match ← peek with
  | none => failHere (.malformed .endInObject)
  | some '"' =>
      advance
      skipString
      colon
  | some _ => failAhead (.malformed .keyNotString)

/-- Close containers as long as their closing characters come next.  The innermost one
is `open_`, and `value` tells whether a value has just ended in it.  The result is what
is still open when another value follows, the innermost container first, or nothing when
all are closed. -/
def skipClosings : Nat → Bool → Bracket → List Bracket → Reader (List Bracket)
  | 0, _, _, _ => failHere (.malformed .endInValue)
  | limit + 1, value, innermost, outer => do
      skipBlanks
      match ← peek with
      | none => failHere (.malformed innermost.endFault)
      | some c =>
          if value ∧ c = ',' then do
            advance
            return innermost :: outer
          else if c = innermost.closing then do
            advance
            match outer with
            | [] => return []
            | next :: further => skipClosings limit true next further
          else if value then
            failAhead (.malformed innermost.separatorFault)
          else
            return innermost :: outer

/-- Skip values until all open containers are closed.  Every round consumes at least
one character, so `limit` may be the number of characters ahead. -/
def skipOpen : Nat → List Bracket → Reader Unit
  | 0, _ => failHere (.malformed .endInValue)
  | limit + 1, outer => do
      let started ← skipStart
      let pending ← match started, outer with
        | none, [] => pure []
        | none, innermost :: further => skipClosings (limit + 1) true innermost further
        | some bracket, outer => skipClosings (limit + 1) false bracket outer
      match pending with
      | [] => return
      | .square :: _ => skipOpen limit pending
      | .curly :: _ =>
          skipName
          skipOpen limit pending

/-- Skip one value. -/
def skipValue : Reader Unit := do
  skipOpen ((← get).rest.length + 1) []

end Reader

end FormSchema
