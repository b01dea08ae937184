import FormSchema.Decoding.Cursor
import FormSchema.Numeral

/-!
# Numbers in a JSON text

A number is first split into its digits (a `Numeral`) and then given a value.

A whole number that a 64-bit word can hold is exact.  Any other number is a double,
computed in a fixed way: the digits are gathered into a 64-bit significand until the
next one would not fit, the significand is rounded to a double, and that is multiplied
or divided by a power of ten.  The two roundings make the result differ from the
nearest double now and then.
-/

namespace FormSchema

namespace Numeral

/-- The largest number that a 64-bit word holds. -/
def wordMax : Nat :=
  Nat.pow 2 64 - 1

/-- The largest exponent that is looked at in detail. -/
def exponentMax : Nat :=
  Nat.pow 2 31 - 1

/-- Append digits to a significand as long as it fits a 64-bit word; the second part is
the number of digits left over. -/
def gather (significand : Nat) : List Char → Nat × Nat
  | [] => (significand, 0)
  | c :: rest =>
      let next := 10 * significand + digitValue c
      if next ≤ wordMax then gather next rest else (significand, rest.length + 1)

/-- How many digits of an exponent have been read when it becomes too large, if it
does. -/
def overflowLength? (value : Nat) : List Char → Option Nat
  | [] => none
  | c :: rest =>
      let next := 10 * value + digitValue c
      if exponentMax < next then some 1 else (overflowLength? next rest).map (· + 1)

/-- A double times a power of ten.  Powers beyond `10 ^ 308` are not available, so a
smaller number is reached by several divisions; two of them turn every significand
into zero, and `rounds` need not be larger. -/
def scale (value : Binary64) (exponent : Int) : Nat → Option Binary64
  | 0 => some (.zero false)
  | rounds + 1 =>
      if exponent.natAbs ≤ 308 then
        (Binary64.powerOfTen exponent.natAbs).bind fun power =>
          if 0 ≤ exponent then value.mul power else value.div power
      else if value.isZero then
        some value
      else if 0 ≤ exponent then
        none
      else
        (Binary64.powerOfTen 308).bind fun power =>
          (value.div power).bind fun quotient => scale quotient (exponent + 308) rounds

/-- The double for a significand and a power of ten, with a sign. -/
def double (negative : Bool) (significand : Nat) (exponent : Int) : Option Number := do
  let value ← Binary64.ofNat significand
  let magnitude ← scale value exponent 4
  return .double (if negative then magnitude.neg else magnitude)

/-- The value of a whole number with the given significand, all of whose digits are
gathered. -/
def wholeValue (negative : Bool) (significand : Nat) : Option Number :=
  if negative then
    if significand = 0 ∨ Nat.pow 2 63 < significand then
      double true significand 0
    else
      some (.integer (-significand))
  else
    some (.integer significand)

/-- The significand of a number and the exponent that its digits alone give it. -/
def significand (numeral : Numeral) : Nat × Int :=
  let (gathered, left) := gather 0 numeral.whole
  match numeral.fraction with
  | none => (gathered, left)
  | some digits =>
      let (gathered, dropped) := gather gathered digits
      (gathered, (left : Int) + dropped - digits.length)

/-- The number of digits of the exponent up to the one that makes it too large. -/
def exponentOverflow? (numeral : Numeral) : Option Nat :=
  numeral.exponent.bind fun exponent => overflowLength? 0 exponent.digits

/-- The value of a number, or `none` when it is too large for a double. -/
def value? (numeral : Numeral) : Option Number :=
  let (significand, shift) := numeral.significand
  match numeral.exponent with
  | none =>
      if numeral.fraction.isNone ∧ shift = 0 then
        wholeValue numeral.negative significand
      else
        double numeral.negative significand shift
  | some exponent =>
      if numeral.exponentOverflow?.isSome then
        if significand = 0 ∨ exponent.negative then double numeral.negative 0 0 else none
      else
        double numeral.negative significand (shift + exponent.value)

end Numeral

namespace Reader

/-- Read the digits before the point.  A leading zero stands alone. -/
def wholeDigits : Reader (List Char) := do
  match ← peek with
  | none => failHere (.malformed .endInValue)
  | some '0' =>
      advance
      match ← peek with
      | some c => if c.isDigit then failAhead (.malformed .invalidNumber) else return ['0']
      | none => return ['0']
  | some c => if c.isDigit then takeWhile Char.isDigit else failAhead (.malformed .invalidNumber)

/-- Read a point and the digits behind it, if there is one. -/
def fractionDigits : Reader (Option (List Char)) := do
  match ← peek with
  | some '.' =>
      advance
      let digits ← takeWhile Char.isDigit
      if digits.isEmpty then
        match ← peek with
        | none => failHere (.malformed .endInValue)
        | some _ => failAhead (.malformed .invalidNumber)
      else
        return some digits
  | _ => return none

/-- Read the digits of an exponent, of which there must be one. -/
def exponentDigits : Reader (List Char) := do
  match ← peek with
  | none => failHere (.malformed .endInValue)
  | some c => if c.isDigit then takeWhile Char.isDigit else failAhead (.malformed .invalidNumber)

/-- Read an optional sign; is it a minus? -/
def sign : Reader Bool := do
  match ← peek with
  | some '+' => do advance; return false
  | some '-' => do advance; return true
  | _ => return false

/-- Read an exponent, if there is one, together with the position of its digits. -/
def exponent : Reader (Option (Exponent × Position)) := do
  let next ← peek
  if next = some 'e' ∨ next = some 'E' then
    advance
    let negative ← sign
    let start := (← get).position
    let digits ← exponentDigits
    return some (⟨negative, digits⟩, start)
  else
    return none

/-- Read a number behind its minus sign, if it has one.  When it is too large, the
fault lies at its end or at the digit that makes the exponent too large. -/
def number (negative : Bool) : Reader Number := do
  let whole ← wholeDigits
  let fraction ← fractionDigits
  let exponent ← exponent
  let numeral : Numeral := ⟨negative, whole, fraction, exponent.map Prod.fst⟩
  match numeral.value?, exponent, numeral.exponentOverflow? with
  | some value, _, _ => return value
  | none, some (_, start), some length =>
      failAt { start with column := start.column + length } (.malformed .numberOutOfRange)
  | none, _, _ => failHere (.malformed .numberOutOfRange)

/-- Skip the digits before the point. -/
def skipWhole : Reader Unit := do
  match ← peek with
  | none => failHere (.malformed .invalidNumber)
  | some _ =>
      let _ ← wholeDigits

/-- Skip a point and the digits behind it, if there is one. -/
def skipFraction : Reader Unit := do
  if (← peek) = some '.' then
    advance
    let digits ← takeWhile Char.isDigit
    if digits.isEmpty then
      failAhead (.malformed .invalidNumber)

/-- Skip an exponent, if there is one. -/
def skipExponent : Reader Unit := do
  let next ← peek
  if next = some 'e' ∨ next = some 'E' then
    advance
    let _ ← sign
    match ← peek with
    | none => failHere (.malformed .invalidNumber)
    | some _ =>
        let _ ← exponentDigits

/-- Skip a number behind its minus sign, if it has one.  Its value is not computed, and
a number that the text cuts short is invalid. -/
def skipNumber : Reader Unit := do
  skipWhole
  skipFraction
  skipExponent

end Reader

end FormSchema
