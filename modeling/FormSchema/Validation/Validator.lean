import FormSchema.Validation.Event

/-!
# Validating values

`validate` walks a value from the beginning and reports the findings in the order in
which they were made, together with a log of what happened.  Running out of depth is an
error, and the findings made before are dropped; running into the limit of findings is
not.

Without a depth limit a walk may have no end, when references lead to each other and
never to a part of the value.  Between two steps into the value at most as many
references can be followed as there are definitions, unless one of them recurs, so the
height of the value tells how many may be nested before that is certain.
-/

namespace FormSchema

/-- What a caller may ask of a validation.  A limit of zero means no limit. -/
structure Options where
  maxDepth : Option Nat := none
  maxErrors : Option Nat := none
  deriving DecidableEq, Inhabited

/-- The limits that the options stand for. -/
def Options.limits (options : Options) : Limits where
  depth := options.maxDepth.filter (0 < ·)
  findings := options.maxErrors.filter (0 < ·)

/-- The outcome of a validation: the findings, or why there are none, and the log. -/
structure Validation where
  result : Except Abort (List Finding)
  events : List Event

/-- How many references may be nested in a walk that ends: any number up to the depth
limit, and otherwise one for each definition at each level of the value. -/
def hopAllowance (schema : Schema) (value : Json) (limits : Limits) : Nat :=
  match limits.depth with
  | some limit => limit
  | none => (schema.definitions.getD []).length * (value.height + 1)

/-- Walk a value with a schema from the beginning. -/
def runWalk (limits : Limits) (schema : Schema) (value : Json) : Except Halt Unit × Walk :=
  (Walking.walk schema (hopAllowance schema value limits) schema value none).run.run { limits }

/-- Validate a value.  The schema should have been verified. -/
def validate (options : Options) (schema : Schema) (value : Json) : Validation :=
  let (ending, walk) := runWalk options.limits schema value
  let found := walk.found.reverse
  let log (last : Event) : List Event :=
    .validationStarted schema.form :: walk.hops.reverse.map .followingRef ++ [last]
  match ending with
  | .ok () => ⟨.ok found, log (.validationFinished found.length)⟩
  | .error .enoughFindings => ⟨.ok found, log (.validationStopped found.length)⟩
  | .error (.tooDeep limit) =>
      ⟨.error (.tooDeep limit), log (.validationAborted (.tooDeep limit))⟩
  | .error .endless => ⟨.error .endless, log (.validationAborted .endless)⟩

/-- What verifying a schema logs. -/
def verificationEvents : Except Violation Unit → List Event
  | .ok () => []
  | .error violation => [.verificationFailed violation]

end FormSchema
