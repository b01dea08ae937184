import FormSchema.Decoding.Kinds
import FormSchema.Json.Pointer
import FormSchema.Text.Order

/-!
# Findings

A finding is one place where a value is rejected: a place in the value and a place in
the schema, each as a list of tokens.  Findings travel as JSON objects with two lists
of strings; a list of the two lists is read as well.
-/

namespace FormSchema

/-- One rejection. -/
structure Finding where
  instancePath : List String
  schemaPath : List String
  deriving DecidableEq, Inhabited

namespace Finding

/-- The finding in words, its places as pointers. -/
def display (finding : Finding) : String :=
  "instance `" ++ Pointer.render finding.instancePath ++ "` rejected by schema `" ++
    Pointer.render finding.schemaPath ++ "`"

/-- The finding as a JSON object. -/
def toJson (finding : Finding) : Json :=
  .object [("instancePath", .ofStrings finding.instancePath),
    ("schemaPath", .ofStrings finding.schemaPath)]

/-- A finding from the members of an object, as far as they have been read. -/
def ofMembers (instancePath schemaPath : Option (List String)) :
    List (String × Json) → Except DecodeError Finding
  | [] =>
      match instancePath, schemaPath with
      | none, _ => .error (.here (.missingField "instancePath"))
      | some _, none => .error (.here (.missingField "schemaPath"))
      | some instancePath, some schemaPath => .ok ⟨instancePath, schemaPath⟩
  | (name, value) :: rest =>
      if name = "instancePath" then do
        let path ← Decode.under (.key name) (Decode.strings .sequence value)
        ofMembers (some path) schemaPath rest
      else if name = "schemaPath" then do
        let path ← Decode.under (.key name) (Decode.strings .sequence value)
        ofMembers instancePath (some path) rest
      else
        ofMembers instancePath schemaPath rest

/-- A finding from the items of a list: exactly the two paths. -/
def ofItems (values : List Json) : Except DecodeError Finding := do
  let path (position : Nat) : Except DecodeError (List String) :=
    match values[position]? with
    | some value => Decode.under (.position position) (Decode.strings .sequence value)
    | none => .error (.here (.tooFewItems position .finding 2))
  let instancePath ← path 0
  let schemaPath ← path 1
  if values.length = 2 then
    return ⟨instancePath, schemaPath⟩
  else
    .error (.here (.tooManyItems values.length))

/-- The finding that a value describes. -/
def ofJson : Json → Except DecodeError Finding
  | .object members => ofMembers none none members
  | .array values => ofItems values
  | other => Decode.wrongKind other .finding

/-- The order of paths, token by token; a path comes before its continuations. -/
def pathLe : List String → List String → Bool
  | [], _ => true
  | _ :: _, [] => false
  | left :: lefts, right :: rights =>
      if left = right then pathLe lefts rights else Text.le left right

/-- The order of findings: by the place in the value, then by the place in the schema. -/
def le (left right : Finding) : Bool :=
  if left.instancePath = right.instancePath then
    pathLe left.schemaPath right.schemaPath
  else
    pathLe left.instancePath right.instancePath

/-- Drop every finding that equals the one before it. -/
def dropRepeated : List Finding → List Finding
  | [] => []
  | finding :: rest =>
      match dropRepeated rest with
      | [] => [finding]
      | next :: others => if finding = next then next :: others else finding :: next :: others

/-- The findings in increasing order, each once. -/
def sorted (findings : List Finding) : List Finding :=
  dropRepeated (findings.mergeSort le)

end Finding

end FormSchema
