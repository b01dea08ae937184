/-!
# Written numbers

A `Numeral` is a decimal number as it is written: its digits, and an exponent if there is
one.  What number it stands for, and how exactly, is up to those who read it.
-/

namespace FormSchema

/-- The exponent of a written number. -/
structure Exponent where
  negative : Bool
  digits : List Char
  deriving DecidableEq, Inhabited

/-- A written number by its parts. -/
structure Numeral where
  negative : Bool
  whole : List Char
  fraction : Option (List Char)
  exponent : Option Exponent
  deriving DecidableEq, Inhabited

/-- The value of a digit. -/
def digitValue (c : Char) : Nat :=
  c.toNat - 48

/-- The number written with decimal digits. -/
def digitsValue (digits : List Char) : Nat :=
  digits.foldl (fun value c => 10 * value + digitValue c) 0

/-- The text of an exponent, always with its sign. -/
def Exponent.chars (exponent : Exponent) : List Char :=
  'e' :: (if exponent.negative then '-' else '+') :: exponent.digits

/-- The value of an exponent. -/
def Exponent.value (exponent : Exponent) : Int :=
  if exponent.negative then -digitsValue exponent.digits else digitsValue exponent.digits

namespace Numeral

/-- The digits of an integer. -/
def ofInt (value : Int) : Numeral :=
  ⟨value < 0, (toString value.natAbs).toList, none, none⟩

/-- Has the numeral neither a fraction nor an exponent? -/
def isWhole (numeral : Numeral) : Bool :=
  numeral.fraction.isNone && numeral.exponent.isNone

/-- May the numeral stand in a JSON text?  There a zero is the first of several digits
only behind the point. -/
def isJson (numeral : Numeral) : Bool :=
  numeral.whole.head? != some '0' || numeral.whole.length = 1

/-- The text of a numeral. -/
def chars (numeral : Numeral) : List Char :=
  (if numeral.negative then ['-'] else []) ++ numeral.whole ++
    (match numeral.fraction with
      | none => []
      | some digits => '.' :: digits) ++
    match numeral.exponent with
    | none => []
    | some exponent => exponent.chars

/-- All its digits as one number, and the power of ten by which that is to be
multiplied. -/
def scaled (numeral : Numeral) : Nat × Int :=
  let fraction := numeral.fraction.getD []
  (digitsValue (numeral.whole ++ fraction),
    (match numeral.exponent with
      | none => 0
      | some exponent => exponent.value) - fraction.length)

end Numeral

end FormSchema
