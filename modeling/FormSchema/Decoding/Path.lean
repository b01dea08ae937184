/-!
# Where reading failed

While a value is read, the reader keeps the keys and positions it has gone through.
The rendered path joins keys with dots and puts positions in brackets, without
escaping anything; it is for people, not for looking values up.
-/

namespace FormSchema

/-- One step towards the place of a failure. -/
inductive PathStep where
  | key (name : String)
  | position (index : Nat)
  /-- A member whose key could not be read. -/
  | unknown
  deriving DecidableEq, Inhabited

namespace PathStep

/-- The text of a step by itself. -/
def text : PathStep → String
  | key name => name
  | position index => "[" ++ toString index ++ "]"
  | unknown => "?"

/-- The text of a step behind another one. -/
def laterText : PathStep → String
  | position index => text (position index)
  | step => "." ++ text step

end PathStep

/-- The text of a path; the empty path is a lone dot. -/
def renderPath : List PathStep → String
  | [] => "."
  | first :: rest => first.text ++ String.join (rest.map PathStep.laterText)

end FormSchema
