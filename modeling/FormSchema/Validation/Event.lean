import FormSchema.Schema.Verify
import FormSchema.Validation.Walk

/-!
# Events

Verifying and validating leave a log of events.  An event is a value; `Event.toJson`
shows it as a log record with a level, a message and named fields.
-/

namespace FormSchema

/-- Why a validation has no findings to report. -/
inductive Abort where
  | tooDeep (limit : Nat)
  | endless
  deriving DecidableEq, Inhabited

/-- The message for a validation that was aborted.  One that never ends tells nothing. -/
def Abort.message : Abort → String
  | tooDeep limit => "max depth of " ++ toString limit ++ " exceeded while resolving refs"
  | endless => ""

/-- Something that is worth logging. -/
inductive Event where
  | validationStarted (form : Form)
  | followingRef (hop : Hop)
  | validationFinished (errors : Nat)
  | validationStopped (errors : Nat)
  | validationAborted (abort : Abort)
  | verificationFailed (violation : Violation)
  | schemaVerified (path : String) (form : Form)
  | filterCompiled (source : String)
  | instancesLoaded (count : Nat)
  deriving DecidableEq, Inhabited

namespace Event

/-- How much detail an event belongs to. -/
def level : Event → String
  | followingRef _ => "TRACE"
  | schemaVerified _ _ => "INFO"
  | _ => "DEBUG"

/-- What happened. -/
def message : Event → String
  | validationStarted _ => "validation started"
  | followingRef _ => "following ref"
  | validationFinished _ => "validation finished"
  | validationStopped _ => "validation stopped at error limit"
  | validationAborted _ => "validation aborted: ref chain too deep"
  | verificationFailed _ => "schema verification failed"
  | schemaVerified _ _ => "schema verified"
  | filterCompiled _ => "jq filter compiled"
  | instancesLoaded _ => "instances loaded"

/-- The particulars of an event. -/
def fields : Event → List (String × Json)
  | validationStarted form => [("form", .string form.name)]
  | followingRef hop => [("definition", .string hop.definition), ("depth", .ofNat hop.depth)]
  | validationFinished errors => [("errors", .ofNat errors)]
  | validationStopped errors => [("errors", .ofNat errors)]
  | validationAborted (.tooDeep limit) => [("max_depth", .ofNat limit)]
  | validationAborted .endless => []
  | verificationFailed violation => [("err", .string violation.message)]
  | schemaVerified path form => [("schema", .string path), ("form", .string form.name)]
  | filterCompiled source => [("filter", .string source)]
  | instancesLoaded count => [("count", .ofNat count)]

/-- The event as a log record. -/
def toJson (event : Event) : Json :=
  .object [("level", .string event.level), ("message", .string event.message),
    ("fields", .object event.fields)]

end Event

end FormSchema
