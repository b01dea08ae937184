import FormSchema.Command.Documents
import FormSchema.Validation.Validator

/-!
# Reports

A report says what became of one value.  It is written as a JSON object on a line of its
own, with the findings if the validation was completed and with the reason if it exceeded
the limit of references.
-/

namespace FormSchema

/-- What became of a value: the findings, or the limit of references that was exceeded. -/
structure Report where
  source : String
  index : Nat
  result : Except Nat (List Finding)

namespace Report

/-- Is the value valid? -/
def valid (report : Report) : Bool :=
  match report.result with
  | .ok findings => findings.isEmpty
  | .error _ => false

/-- The report as a JSON object. -/
def toJson (report : Report) : Json :=
  .object
    ([("source", .string report.source), ("index", .ofNat report.index),
        ("valid", .bool report.valid)] ++
      match report.result with
      | .ok findings => [("errors", .array (findings.map Finding.toJson))]
      | .error limit => [("fatal", .string (Abort.tooDeep limit).message)])

/-- The report as a line of text. -/
def line (report : Report) : String :=
  report.toJson.compact ++ "\n"

/-- The report on a value whose validation has the given outcome.  A validation that never ends
leaves nothing to report, and ends no command. -/
def ofValidation (value : Instance) (validation : Validation) : Except CommandError Report :=
  match validation.result with
  | .ok findings => .ok ⟨value.source, value.index, .ok findings⟩
  | .error (.tooDeep limit) => .ok ⟨value.source, value.index, .error limit⟩
  | .error .endless => .error .endless

end Report

/-- The validations of values with one schema. -/
def validateEach (options : Options) (schema : Schema) (values : List Instance) :
    List Validation :=
  values.map fun item => validate options schema item.value

/-- The reports on values whose validations have the given outcomes. -/
def reportEach (values : List Instance) (validations : List Validation) :
    Except CommandError (List Report) :=
  (values.zip validations).mapM fun entry => Report.ofValidation entry.1 entry.2

/-- The number of reports, and of those on values that are not valid. -/
structure Summary where
  total : Nat
  invalid : Nat
  deriving DecidableEq, Inhabited

namespace Summary

/-- The summary of some reports. -/
def ofReports (reports : List Report) : Summary :=
  ⟨reports.length, reports.countP fun report => !report.valid⟩

/-- The summary in words. -/
def notice (summary : Summary) : String :=
  if summary.invalid = 0 then
    "✔ " ++ toString summary.total ++ " valid\n"
  else
    "✘ " ++ toString summary.invalid ++ " of " ++ toString summary.total ++ " invalid\n"

/-- The exit status that tells whether all values are valid. -/
def exitStatus (summary : Summary) : Nat :=
  if summary.invalid = 0 then 0 else 1

end Summary

end FormSchema
