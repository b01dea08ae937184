import FormSchema.Text.Invisible

/-!
# Strings quoted for a message

A string is shown between double quotes.  Quotes and backslashes stand behind a
backslash, the usual control characters have their letters, and any other character
that does not show by itself is given by its code point.
-/

namespace FormSchema.Text

/-- The code point of a character in lower-case hexadecimal digits. -/
def codePoint (c : Char) : List Char :=
  Nat.toDigits 16 c.toNat

/-- A character as it is shown inside a quoted string. -/
def shownChar (c : Char) : List Char :=
  if c = '"' then ['\\', '"']
  else if c = '\\' then ['\\', '\\']
  else if c = '\n' then ['\\', 'n']
  else if c = '\r' then ['\\', 'r']
  else if c = '\t' then ['\\', 't']
  else if c.toNat = 0 then ['\\', '0']
  else if isInvisible c then '\\' :: 'u' :: '\x7b' :: codePoint c ++ ['\x7d']
  else [c]

/-- The string between double quotes. -/
def shown (value : String) : String :=
  String.ofList ('"' :: value.toList.flatMap shownChar ++ ['"'])

end FormSchema.Text
