import FormSchema.Filter.Basic
import FormSchema.Filter.Language
import FormSchema.Filter.Token

/-!
# Reading a filter

Operators bind, from the loosest: `|`, `,`, `//`, `or`, `and`, `==`.  The pipe groups to
the right and the others to the left.  A question mark behind an access makes that one
access lenient, and behind anything else ends its outputs before the first failure.

Reading fails for malformed text and for names that are not known or are used with the
wrong number of arguments; no reason is given.
-/

namespace FormSchema.Filter

/-- An operator between two filters. -/
inductive Operator where
  | pipe
  | comma
  | alternative
  | either
  | both
  | equal
  deriving DecidableEq, Inhabited

namespace Operator

/-- The operator that a token stands for. -/
def ofToken? : Token → Option Operator
  | .pipe => some pipe
  | .comma => some comma
  | .alternative => some alternative
  | .equal => some equal
  | .word name =>
      if name = "or" then some either
      else if name = "and" then some both
      else none
  | _ => none

/-- How tightly an operator binds. -/
def strength : Operator → Nat
  | pipe => 0
  | comma => 1
  | alternative => 2
  | either => 3
  | both => 4
  | equal => 5

/-- How tightly operators must bind to belong to the right operand. -/
def rightStrength : Operator → Nat
  | pipe => 0
  | operator => operator.strength + 1

/-- The filter that an operator makes of its operands. -/
def combine : Operator → Filter → Filter → Filter
  | pipe => .pipe
  | comma => .comma
  | alternative => .alternative
  | either => .either
  | both => .both
  | equal => .equal

end Operator

/-- The filter that a name without arguments stands for. -/
def ofName? (name : String) : Option Filter :=
  [("null", .literal .null), ("true", .literal (.bool true)), ("false", .literal (.bool false)),
    ("not", .not), ("length", .length), ("keys", .keys), ("type", .type),
    ("empty", .empty)].lookup name

/-- The filter that a name with one argument stands for. -/
def ofCall? (name : String) (argument : Filter) : Option Filter :=
  [("select", .select argument), ("map", .map argument)].lookup name

/-- Question marks at the beginning, if there are any. -/
def questions (tokens : List Token) : Bool × List Token :=
  (tokens.head? = some .question, tokens.dropWhile (· = .question))

/-- What a reader gives: a filter and the tokens behind it. -/
abbrev Reading :=
  Option (Filter × List Token)

mutual

/-- Read a filter whose operators bind at least as tightly as `minimum`.  Without
`commas` it ends before a comma.  As every call of a reader inside another one either
consumes a token or is the only one before the next token, `limit` may be a small
multiple of the number of tokens. -/
def readExpression : Nat → Bool → Nat → List Token → Reading
  | 0, _, _, _ => none
  | limit + 1, commas, minimum, tokens => do
      let (first, rest) ← readTerm limit tokens
      readOperators limit commas minimum first rest

/-- Read operators and their right operands behind a left operand. -/
def readOperators : Nat → Bool → Nat → Filter → List Token → Reading
  | 0, _, _, _, _ => none
  | limit + 1, commas, minimum, left, tokens =>
      match tokens.head?.bind Operator.ofToken? with
      | none => some (left, tokens)
      | some operator =>
          if operator.strength < minimum ∨ (operator = .comma ∧ commas = false) then
            some (left, tokens)
          else do
            let (right, rest) ←
              readExpression limit commas operator.rightStrength (tokens.drop 1)
            readOperators limit commas minimum (operator.combine left right) rest

/-- Read a filter without operators. -/
def readTerm : Nat → List Token → Reading
  | 0, _ => none
  | limit + 1, tokens =>
      match tokens with
      | .dot :: .string _ :: _ => readTail limit .identity tokens
      | .dot :: rest => readTail limit .identity rest
      | .field _ :: _ => readTail limit .identity tokens
      | .string text :: rest => readTail limit (.literal (.string text)) rest
      | .number numeral :: rest => readTail limit (.literal (.number (.ofNumeral numeral))) rest
      | .minus :: rest => do
          let (body, rest) ← readTerm limit rest
          some (.negative body, rest)
      | .openRound :: rest => do
          let (body, rest) ← readExpression limit true 0 rest
          match rest with
          | .closeRound :: rest => readTail limit body rest
          | _ => none
      | .openSquare :: .closeSquare :: rest => readTail limit (.literal (.array [])) rest
      | .openSquare :: rest => do
          let (body, rest) ← readExpression limit true 0 rest
          match rest with
          | .closeSquare :: rest => readTail limit (.collect body) rest
          | _ => none
      | .openCurly :: .closeCurly :: rest => readTail limit (.literal (.object [])) rest
      | .openCurly :: rest => do
          let (object, rest) ← readEntries limit rest
          readTail limit object rest
      | .word name :: .openRound :: rest => do
          let (argument, rest) ← readExpression limit true 0 rest
          match rest with
          | .closeRound :: rest => do
              let call ← ofCall? name argument
              readTail limit call rest
          | _ => none
      | .word name :: rest => do
          let filter ← ofName? name
          readTail limit filter rest
      | _ => none

/-- Read question marks and a path behind a filter. -/
def readTail : Nat → Filter → List Token → Reading
  | 0, _, _ => none
  | limit + 1, body, tokens => do
      let (attempted, rest) := questions tokens
      let (way, rest) ← readPath limit rest
      some (.path (if attempted then .attempt body else body) way, rest)

/-- Read the accesses of a path, each with its question marks. -/
def readPath : Nat → List Token → Option (Path × List Token)
  | 0, _ => none
  | limit + 1, tokens =>
      match tokens with
      | .field name :: rest => readPart limit (.literal (.string name)) rest
      | .dot :: .string name :: rest => readPart limit (.literal (.string name)) rest
      | .openSquare :: .closeSquare :: rest => do
          let (lenient, rest) := questions rest
          let (way, rest) ← readPath limit rest
          some (.parts lenient way, rest)
      | .openSquare :: rest => do
          let (key, rest) ← readExpression limit true 0 rest
          match rest with
          | .closeSquare :: rest => readPart limit key rest
          | _ => none
      | _ => some (.done, tokens)

/-- Read the rest of a path behind a key. -/
def readPart : Nat → Filter → List Token → Option (Path × List Token)
  | 0, _, _ => none
  | limit + 1, key, tokens => do
      let (lenient, rest) := questions tokens
      let (way, rest) ← readPath limit rest
      some (.part key lenient way, rest)

/-- Read the entries of an object up to its closing brace, in front of which there may be
a comma. -/
def readEntries : Nat → List Token → Reading
  | 0, _ => none
  | limit + 1, tokens => do
      let (first, rest) ← readEntry limit tokens
      match rest with
      | .closeCurly :: rest => some (first, rest)
      | .comma :: .closeCurly :: rest => some (first, rest)
      | .comma :: rest => do
          let (others, rest) ← readEntries limit rest
          some (.merge first others, rest)
      | _ => none

/-- Read one entry.  A name alone stands for the member of that name. -/
def readEntry : Nat → List Token → Reading
  | 0, _ => none
  | limit + 1, tokens => do
      let (key, short, rest) ← match tokens with
        | .word name :: rest =>
            let key := Filter.literal (.string name)
            some (key, some (Filter.path .identity (.part key false .done)), rest)
        | .string name :: rest =>
            let key := Filter.literal (.string name)
            some (key, some (Filter.path .identity (.part key false .done)), rest)
        | .openRound :: rest => do
            let (key, rest) ← readExpression limit true 0 rest
            match rest with
            | .closeRound :: rest => some (key, none, rest)
            | _ => none
        | _ => none
      match rest with
      | .colon :: rest => do
          let (value, rest) ← readExpression limit false 0 rest
          some (.entry key value, rest)
      | _ => short.map fun value => (.entry key value, rest)

end

/-- The filter with the given text. -/
def ofText? (text : String) : Option Filter := do
  let characters := text.toList
  let tokens ← Token.scan characters.length characters
  let (filter, rest) ← readExpression (10 * (tokens.length + 1)) true 0 tokens
  if rest.isEmpty then some filter else none

/-- The language of these filters, all of which come to an end. -/
def language : FilterLanguage where
  Program := Filter
  compile text :=
    match ofText? text with
    | some filter => .ok filter
    | none => .error (.unreadable [(text, "")])
  outputs filter value := some ((filter.outputs (.ofJson value)).map Output.toExcept)

end FormSchema.Filter
