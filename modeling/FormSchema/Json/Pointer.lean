import FormSchema.Json.Basic
import FormSchema.Numeral
import FormSchema.Text.Split

/-!
# JSON pointers

A pointer (RFC 6901) names a place in a value by the member names and item positions
that lead to it.  Here a place is a list of tokens; `Pointer.render` writes it as one
string and `Pointer.parse?` reads it back.

In the written form every token stands behind a slash, a tilde inside a token is
written `~0` and a slash `~1`.
-/

namespace FormSchema

namespace Pointer

/-- The characters of a token with its tildes escaped. -/
def escapeTilde (token : List Char) : List Char :=
  token.flatMap fun c => if c = '~' then ['~', '0'] else [c]

/-- The characters of a token with its slashes escaped. -/
def escapeSlash (token : List Char) : List Char :=
  token.flatMap fun c => if c = '/' then ['~', '1'] else [c]

/-- The written form of a token.  Tildes are escaped first, so that those of escaped
slashes stay as they are. -/
def escape (token : List Char) : List Char :=
  escapeSlash (escapeTilde token)

/-- Replace every tilde that is followed by `digit`, together with the digit. -/
def replaceEscape (digit replacement : Char) : List Char → List Char
  | first :: second :: rest =>
      if first = '~' ∧ second = digit then
        replacement :: replaceEscape digit replacement rest
      else
        first :: replaceEscape digit replacement (second :: rest)
  | short => short

/-- The token with the given written form. -/
def unescape (text : List Char) : List Char :=
  replaceEscape '0' '~' (replaceEscape '1' '/' text)

/-- The pointer to the place with the given tokens. -/
def render (tokens : List String) : String :=
  String.ofList (tokens.flatMap fun token => '/' :: escape token.toList)

/-- The tokens of a pointer.  The empty text leads nowhere but to the whole value, and
any other pointer starts with a slash. -/
def parse? (text : String) : Option (List String) :=
  match text.toList with
  | [] => some []
  | '/' :: rest => some ((rest.splitOn '/').map fun piece => String.ofList (unescape piece))
  | _ => none

/-- The position that a token names in an array: decimal digits, without a sign and
without a leading zero. -/
def index? (token : String) : Option Nat :=
  match token.toList with
  | [] => none
  | ['0'] => some 0
  | '0' :: _ => none
  | digits => if digits.all Char.isDigit then some (digitsValue digits) else none

end Pointer

namespace Json

/-- The value one token further. -/
def step? (token : String) : Json → Option Json
  | .object members => members.lookup token
  | .array items => (Pointer.index? token).bind fun index => items[index]?
  | _ => none

/-- The value at the place with the given tokens. -/
def at? : List String → Json → Option Json
  | [], value => some value
  | token :: tokens, value => (value.step? token).bind (at? tokens)

/-- The value that a pointer leads to. -/
def pointer? (text : String) (value : Json) : Option Json :=
  (Pointer.parse? text).bind fun tokens => value.at? tokens

end Json

end FormSchema
