/-!
# RFC 3339 timestamps

A timestamp is a calendar date, a `T`, `t` or single space, a time of day with an
optional fraction of a second, and an offset from UTC.  The date must exist in the
Gregorian calendar, extended to the year zero; the second may be 60 in any minute.
-/

namespace FormSchema.Timestamp

/-- The numbers that a timestamp is made of. -/
structure Fields where
  year : Nat
  month : Nat
  day : Nat
  hour : Nat
  minute : Nat
  second : Nat
  offsetHour : Nat
  offsetMinute : Nat
  deriving DecidableEq

/-- Does the year have a 29th of February? -/
def isLeapYear (year : Nat) : Bool :=
  year % 4 = 0 && (year % 100 != 0 || year % 400 = 0)

/-- The number of days of a month, which is zero outside 1 to 12. -/
def daysInMonth (year month : Nat) : Nat :=
  if month = 2 then
    if isLeapYear year then 29 else 28
  else if month = 4 ∨ month = 6 ∨ month = 9 ∨ month = 11 then
    30
  else if 1 ≤ month ∧ month ≤ 12 then
    31
  else
    0

/-- Do the numbers form a date, a time of day and an offset? -/
def Fields.isValid (fields : Fields) : Bool :=
  1 ≤ fields.day && fields.day ≤ daysInMonth fields.year fields.month &&
    fields.hour ≤ 23 && fields.minute ≤ 59 && fields.second ≤ 60 &&
    fields.offsetHour ≤ 23 && fields.offsetMinute ≤ 59

/-- The value of an ASCII digit. -/
def digit? (c : Char) : Option Nat :=
  if c.isDigit then some (c.toNat - 48) else none

/-- Read exactly `count` digits, behind a number that has been read already. -/
def number (count : Nat) (read : Nat) (text : List Char) : Option (Nat × List Char) :=
  match count, text with
  | 0, rest => some (read, rest)
  | _ + 1, [] => none
  | count + 1, c :: rest => (digit? c).bind fun value => number count (10 * read + value) rest

/-- Read one of the given characters. -/
def oneOf (allowed : List Char) : List Char → Option (List Char)
  | [] => none
  | c :: rest => if c ∈ allowed then some rest else none

/-- Skip a point with at least one digit behind it.  Text that does not start with a
point is left alone. -/
def skipFraction (text : List Char) : Option (List Char) :=
  match text with
  | '.' :: c :: rest => if c.isDigit then some (rest.dropWhile Char.isDigit) else none
  | ['.'] => none
  | _ => some text

/-- Read an offset: `Z`, `z`, or a sign with hours and minutes.  A minus sign may be
the hyphen or U+2212. -/
def offset (text : List Char) : Option (Nat × Nat × List Char) :=
  match text with
  | [] => none
  | c :: rest =>
      if c = 'Z' ∨ c = 'z' then
        some (0, 0, rest)
      else if c = '+' ∨ c = '-' ∨ c = '\u2212' then do
        let (hour, rest) ← number 2 0 rest
        let rest ← oneOf [':'] rest
        let (minute, rest) ← number 2 0 rest
        some (hour, minute, rest)
      else
        none

/-- The numbers of a text that has the form of a timestamp from beginning to end. -/
def fields? (text : List Char) : Option Fields := do
  let (year, rest) ← number 4 0 text
  let rest ← oneOf ['-'] rest
  let (month, rest) ← number 2 0 rest
  let rest ← oneOf ['-'] rest
  let (day, rest) ← number 2 0 rest
  let rest ← oneOf ['T', 't', ' '] rest
  let (hour, rest) ← number 2 0 rest
  let rest ← oneOf [':'] rest
  let (minute, rest) ← number 2 0 rest
  let rest ← oneOf [':'] rest
  let (second, rest) ← number 2 0 rest
  let rest ← skipFraction rest
  let (offsetHour, offsetMinute, rest) ← offset rest
  if rest.isEmpty then
    some { year, month, day, hour, minute, second, offsetHour, offsetMinute }
  else
    none

/-- Is the text a timestamp? -/
def accepts (text : String) : Bool :=
  match fields? text.toList with
  | some fields => fields.isValid
  | none => false

end FormSchema.Timestamp
