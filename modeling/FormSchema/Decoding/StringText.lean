import FormSchema.Decoding.Cursor

/-!
# Strings in a JSON text

`Reader.string` reads the rest of a string behind its opening quote and gives its
characters; `Reader.skipString` only finds the closing quote.  Both insist on known
escapes with four hexadecimal digits behind `\u`, but only the first one insists that
surrogates form pairs.
-/

namespace FormSchema

namespace StringText

/-- The value of a hexadecimal digit. -/
def hexDigit? (c : Char) : Option Nat :=
  if c.isDigit then some (c.toNat - 48)
  else if 'a' ≤ c ∧ c ≤ 'f' then some (c.toNat - 87)
  else if 'A' ≤ c ∧ c ≤ 'F' then some (c.toNat - 55)
  else none

/-- The number written with four hexadecimal digits. -/
def hexNumber? (a b c d : Char) : Option Nat := do
  let a ← hexDigit? a
  let b ← hexDigit? b
  let c ← hexDigit? c
  let d ← hexDigit? d
  return ((a * 16 + b) * 16 + c) * 16 + d

/-- The character that a letter behind a backslash stands for. -/
def simpleEscape? (c : Char) : Option Char :=
  if c = '"' then some '"'
  else if c = '\\' then some '\\'
  else if c = '/' then some '/'
  else if c = 'b' then some '\x08'
  else if c = 'f' then some '\x0c'
  else if c = 'n' then some '\n'
  else if c = 'r' then some '\r'
  else if c = 't' then some '\t'
  else none

/-- Is the number a high surrogate, the first half of a pair? -/
def isHighSurrogate (unit : Nat) : Bool :=
  0xD800 ≤ unit && unit ≤ 0xDBFF

/-- Is the number a low surrogate, the second half of a pair? -/
def isLowSurrogate (unit : Nat) : Bool :=
  0xDC00 ≤ unit && unit ≤ 0xDFFF

/-- The character that a pair of surrogates stands for. -/
def pairedChar (high low : Nat) : Char :=
  Char.ofNat (0x10000 + (high - 0xD800) * 0x400 + (low - 0xDC00))

/-- The length of a text in bytes. -/
def byteLength : List Char → Nat
  | [] => 0
  | c :: rest => c.utf8Size + byteLength rest

/-- Where a text ends that starts at the given position. -/
def endOf (position : Position) (text : List Char) : Position :=
  text.foldl Position.after position

/-- Fail at a position. -/
def fail {α : Type} (position : Position) (fault : SyntaxFault) : Except DecodeError α :=
  .error ⟨[], .malformed fault, some position⟩

/-- The position `count` characters further in a text without line breaks or characters
beyond ASCII. -/
def columns (position : Position) (count : Nat) : Position :=
  { position with column := position.column + count }

/-- Fail because no four hexadecimal digits follow: at the end of the text when it is
too short for them, and otherwise behind four bytes. -/
def failHex {α : Type} (position : Position) (text : List Char) : Except DecodeError α :=
  if byteLength text < 4 then
    fail (endOf position text) .endInString
  else
    fail (position.afterBytes 4 text) .invalidEscape

/-- Read a string up to its closing quote; `read` holds the characters so far, the last
one first. -/
def body (read : List Char) : List Char → Position → Except DecodeError (List Char × Cursor)
  | [], position => fail position .endInString
  | '"' :: rest, position => .ok (read.reverse, ⟨rest, columns position 1⟩)
  | '\\' :: 'u' :: a :: b :: c :: d :: rest, position =>
      match hexNumber? a b c d with
      | none => failHex (columns position 2) (a :: b :: c :: d :: rest)
      | some unit =>
          if isLowSurrogate unit then
            fail (columns position 6) .loneSurrogate
          else if isHighSurrogate unit then
            match rest with
            | '\\' :: 'u' :: e :: f :: g :: h :: rest =>
                match hexNumber? e f g h with
                | none => failHex (columns position 8) (e :: f :: g :: h :: rest)
                | some low =>
                    if isLowSurrogate low then
                      body (pairedChar unit low :: read) rest (columns position 12)
                    else
                      fail (columns position 12) .loneSurrogate
            | '\\' :: 'u' :: rest => failHex (columns position 8) rest
            | ['\\'] => fail (columns position 7) .endInString
            | '\\' :: c :: _ => fail ((columns position 7).afterByte c) .unfinishedSurrogatePair
            | [] => fail (columns position 6) .endInString
            | c :: _ => fail ((columns position 6).afterByte c) .unfinishedSurrogatePair
          else
            body (Char.ofNat unit :: read) rest (columns position 6)
  | '\\' :: 'u' :: rest, position => failHex (columns position 2) rest
  | ['\\'], position => fail (columns position 1) .endInString
  | '\\' :: c :: rest, position =>
      match simpleEscape? c with
      | some meaning => body (meaning :: read) rest (columns position 2)
      | none => fail ((columns position 1).afterByte c) .invalidEscape
  | c :: rest, position =>
      if c.toNat < 32 then
        fail (position.afterByte c) .controlCharacter
      else
        body (c :: read) rest (position.after c)

/-- Skip a string up to its closing quote.  A control character is refused where it
stands. -/
def skip : List Char → Position → Except DecodeError Cursor
  | [], position => fail position .endInString
  | '"' :: rest, position => .ok ⟨rest, columns position 1⟩
  | '\\' :: 'u' :: a :: b :: c :: d :: rest, position =>
      match hexNumber? a b c d with
      | none => failHex (columns position 2) (a :: b :: c :: d :: rest)
      | some _ => skip rest (columns position 6)
  | '\\' :: 'u' :: rest, position => failHex (columns position 2) rest
  | ['\\'], position => fail (columns position 1) .endInString
  | '\\' :: c :: rest, position =>
      match simpleEscape? c with
      | some _ => skip rest (columns position 2)
      | none => fail ((columns position 1).afterByte c) .invalidEscape
  | c :: rest, position =>
      if c.toNat < 32 then
        fail position .controlCharacter
      else
        skip rest (position.after c)

end StringText

namespace Reader

/-- Read a string behind its opening quote. -/
def string : Reader String :=
  fun cursor => do
    let (characters, behind) ← StringText.body [] cursor.rest cursor.position
    return (String.ofList characters, behind)

/-- Skip a string behind its opening quote. -/
def skipString : Reader Unit :=
  fun cursor => do
    let behind ← StringText.skip cursor.rest cursor.position
    return ((), behind)

end Reader

end FormSchema
