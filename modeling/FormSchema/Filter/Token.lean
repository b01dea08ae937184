import FormSchema.Decoding.StringText
import FormSchema.Numeral
import FormSchema.Text.Blank

/-!
# The words of a filter

The text of a filter is split into tokens before it is read.  A dot directly before a
name makes one token with it; blanks and comments separate tokens and have no other
meaning.  Operators need none around them, not even a minus behind another operator.  A
comment reaches from a number sign to the end of the line, which a backslash moves to the
end of the next one.
-/

namespace FormSchema.Filter

/-- A token of a filter. -/
inductive Token where
  | dot
  /-- A name directly behind a dot. -/
  | field (name : String)
  | word (name : String)
  | string (text : String)
  | number (numeral : Numeral)
  | pipe
  | comma
  | alternative
  | equal
  | minus
  | colon
  | question
  | openRound
  | closeRound
  | openSquare
  | closeSquare
  | openCurly
  | closeCurly
  deriving DecidableEq, Inhabited

namespace Token

/-- May a name start with this character? -/
def startsName (c : Char) : Bool :=
  c.isAlpha || c = '_'

/-- May a name go on with this character? -/
def continuesName (c : Char) : Bool :=
  startsName c || c.isDigit

/-- The tokens that are one character. -/
def ofChar? (c : Char) : Option Token :=
  if c = '.' then some dot
  else if c = '|' then some pipe
  else if c = ',' then some comma
  else if c = '-' then some minus
  else if c = ':' then some colon
  else if c = '?' then some question
  else if c = '(' then some openRound
  else if c = ')' then some closeRound
  else if c = '[' then some openSquare
  else if c = ']' then some closeSquare
  else if c = '\x7b' then some openCurly
  else if c = '\x7d' then some closeCurly
  else none

/-- The characters of a string behind its opening quote, and the text behind its closing
quote; `read` holds the characters so far, the last one first.  Surrogates are refused,
even in pairs. -/
def stringBody (read : List Char) : List Char → Option (List Char × List Char)
  | [] => none
  | '"' :: rest => some (read.reverse, rest)
  | '\\' :: 'u' :: a :: b :: c :: d :: rest =>
      match StringText.hexNumber? a b c d with
      | none => none
      | some unit =>
          if StringText.isHighSurrogate unit ∨ StringText.isLowSurrogate unit then none
          else stringBody (Char.ofNat unit :: read) rest
  | '\\' :: c :: rest =>
      match StringText.simpleEscape? c with
      | none => none
      | some c => stringBody (c :: read) rest
  | c :: rest => if c = '\\' then none else stringBody (c :: read) rest

/-- The exponent of a number at the beginning of a text, if there is one, and the text
behind it.  An exponent without digits is an error. -/
def exponentPart? : List Char → Option (Option Exponent × List Char)
  | [] => some (none, [])
  | c :: rest =>
      if c = 'e' ∨ c = 'E' then
        let signed := rest.head? = some '+' ∨ rest.head? = some '-'
        let unsigned := if signed then rest.drop 1 else rest
        let digits := unsigned.takeWhile Char.isDigit
        if digits.isEmpty then none
        else some (some ⟨rest.head? = some '-', digits⟩, unsigned.dropWhile Char.isDigit)
      else
        some (none, c :: rest)

/-- The digits behind a point at the beginning of a text, if there is a point, and the text
behind them.  A point without digits is an error. -/
def fractionPart? : List Char → Option (Option (List Char) × List Char)
  | '.' :: rest =>
      let digits := rest.takeWhile Char.isDigit
      if digits.isEmpty then none else some (some digits, rest.dropWhile Char.isDigit)
  | text => some (none, text)

/-- The number at the beginning of a text, and the text behind it. -/
def numberPart? (text : List Char) : Option (Numeral × List Char) := do
  let (fraction, rest) ← fractionPart? (text.dropWhile Char.isDigit)
  let (exponent, rest) ← exponentPart? rest
  return (⟨false, text.takeWhile Char.isDigit, fraction, exponent⟩, rest)

/-- The first token of a text that does not start with a blank, and the text behind it. -/
def first? : List Char → Option (Token × List Char)
  | [] => none
  | '.' :: '.' :: _ => none
  | '/' :: '/' :: rest => some (alternative, rest)
  | '=' :: '=' :: rest => some (equal, rest)
  | '"' :: rest => do
      let (characters, rest) ← stringBody [] rest
      return (string (String.ofList characters), rest)
  | c :: rest =>
      if c = '.' ∧ rest.head?.any startsName then
        some (field (String.ofList (rest.takeWhile continuesName)), rest.dropWhile continuesName)
      else if startsName c then
        some (word (String.ofList (c :: rest.takeWhile continuesName)),
          rest.dropWhile continuesName)
      else if c.isDigit then do
        let (numeral, rest) ← numberPart? (c :: rest)
        return (number numeral, rest)
      else
        (ofChar? c).map fun token => (token, rest)

/-- The text behind a comment whose number sign has been read. -/
def behindComment : List Char → List Char
  | [] => []
  | '\n' :: rest => rest
  | '\\' :: '\x0d' :: '\n' :: rest => behindComment rest
  | '\\' :: _ :: rest => behindComment rest
  | _ :: rest => behindComment rest

/-- The tokens of a text.  Every token and every comment takes at least one character, so
`limit` may be the number of characters. -/
def scan : Nat → List Char → Option (List Token)
  | limit, text =>
      match text.dropWhile Text.isBlank, limit with
      | [], _ => some []
      | _, 0 => none
      | '#' :: rest, limit + 1 => scan limit (behindComment rest)
      | text, limit + 1 => do
          let (token, rest) ← first? text
          let others ← scan limit rest
          return token :: others

end Token

end FormSchema.Filter
