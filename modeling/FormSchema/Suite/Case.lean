import FormSchema.Schema.Decode
import FormSchema.Validation.Finding
import FormSchema.Validation.Validator

/-!
# Test cases

A case is a schema, a value and the findings that are expected of them, in order.  It
is written as an object, or as a list of the three.  Beside cases there are schemas that
must be rejected, whether they cannot be read or cannot be verified.
-/

namespace FormSchema.Suite

/-- A test case. -/
structure Case where
  schema : Json
  value : Json
  findings : List Finding
  deriving Inhabited

/-- Why a case fails. -/
inductive CaseFailure where
  | malformed (error : DecodeError)
  | unreadableSchema (error : DecodeError)
  | invalidSchema (violation : Violation)
  | aborted (abort : Abort)
  | otherFindings (expected actual : List Finding)
  | accepted
  deriving DecidableEq, Inhabited

/-- Findings as a JSON text. -/
def findingsText (findings : List Finding) : String :=
  (Json.array (findings.map Finding.toJson)).compact

/-- The message for a failed case. -/
def CaseFailure.message : CaseFailure → String
  | malformed error => "malformed case: " ++ error.message
  | unreadableSchema error => "schema did not deserialize: " ++ error.display
  | invalidSchema violation => "schema did not verify: " ++ violation.message
  | aborted abort => abort.message
  | otherFindings expected actual =>
      "expected " ++ findingsText expected ++ "\n     actual   " ++ findingsText actual
  | accepted => "schema was accepted"

namespace Case

/-- The expected findings of a case. -/
def findingList : Json → Except DecodeError (List Finding) :=
  Decode.list .sequence Finding.ofJson

/-- A case from the members of an object. -/
def ofMembers (members : List (String × Json)) : Except DecodeError Case := do
  let findings ←
    match members.lookup "errors" with
    | some value => some <$> Decode.under (.key "errors") (findingList value)
    | none => .ok none
  match members.lookup "schema", members.lookup "instance", findings with
  | none, _, _ => .error (.here (.missingField "schema"))
  | some _, none, _ => .error (.here (.missingField "instance"))
  | some _, some _, none => .error (.here (.missingField "errors"))
  | some schema, some value, some findings => .ok ⟨schema, value, findings⟩

/-- A case from the items of a list. -/
def ofItems : List Json → Except DecodeError Case
  | schema :: value :: findings :: rest => do
      let findings ← Decode.under (.position 2) (findingList findings)
      if rest.isEmpty then
        return ⟨schema, value, findings⟩
      else
        .error (.here (.tooManyItems (rest.length + 3)))
  | items => .error (.here (.tooFewItems items.length .suiteCase 3))

/-- The case that a value describes. -/
def ofJson : Json → Except DecodeError Case
  | .object members => ofMembers members
  | .array items => ofItems items
  | other => Decode.wrongKind other .suiteCase

/-- Run a case. -/
def run (case : Case) : Except CaseFailure Unit := do
  let schema ← (Schema.ofJson case.schema).mapError .unreadableSchema
  schema.verify.mapError .invalidSchema
  let actual ← (validate {} schema case.value).result.mapError .aborted
  if actual = case.findings then
    return ()
  else
    .error (.otherFindings case.findings actual)

/-- Run the case that a value describes. -/
def runJson (value : Json) : Except CaseFailure Unit := do
  run (← (ofJson value).mapError .malformed)

end Case

/-- Check that a value is no schema that can be used. -/
def checkRejected (value : Json) : Except CaseFailure Unit :=
  match Schema.ofJson value with
  | .error _ => .ok ()
  | .ok schema =>
      match schema.verify with
      | .error _ => .ok ()
      | .ok () => .error .accepted

end FormSchema.Suite
