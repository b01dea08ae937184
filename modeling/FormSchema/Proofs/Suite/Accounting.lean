import FormSchema.Proofs.Files.Writing
import FormSchema.Proofs.Validation.Allowance
import FormSchema.Proofs.Validation.Wire
import FormSchema.Suite.Run

/-!
# A suite accounts for all of its entries

Every entry of a suite whose name is selected is counted once, as passed or as failed, and is told
of in its place, whatever becomes of the entries around it.  What it takes to pass, and every way
to fail, is stated on the entry alone.
-/

namespace FormSchema.Suite

/-! ## Cases -/

/-- A value describes a case whose schema is fine and gives exactly the findings that are expected,
in their order. -/
def Meets (value : Json) : Prop :=
  ∃ case schema, Case.ofJson value = .ok case ∧ Schema.ofJson case.schema = .ok schema ∧
    schema.verify = .ok () ∧ (validate {} schema case.value).result = .ok case.findings

/-- Why a value does not describe a case that passes. -/
inductive Misses (value : Json) : CaseFailure → Prop
  | malformed {error : DecodeError} (isMalformed : Case.ofJson value = .error error) :
      Misses value (.malformed error)
  | unreadableSchema {case : Case} {error : DecodeError} (isCase : Case.ofJson value = .ok case)
      (isUnreadable : Schema.ofJson case.schema = .error error) :
      Misses value (.unreadableSchema error)
  | invalidSchema {case : Case} {schema : Schema} {violation : Violation}
      (isCase : Case.ofJson value = .ok case) (isSchema : Schema.ofJson case.schema = .ok schema)
      (isInvalid : schema.verify = .error violation) : Misses value (.invalidSchema violation)
  | otherFindings {case : Case} {schema : Schema} {actual : List Finding}
      (isCase : Case.ofJson value = .ok case) (isSchema : Schema.ofJson case.schema = .ok schema)
      (isVerified : schema.verify = .ok ())
      (isFound : (validate {} schema case.value).result = .ok actual)
      (differ : actual ≠ case.findings) : Misses value (.otherFindings case.findings actual)

/-- If the value describes a case whose schema is fine, validating comes to an end. -/
def Ends (value : Json) : Prop :=
  ∀ case schema, Case.ofJson value = .ok case → Schema.ofJson case.schema = .ok schema →
    schema.verify = .ok () → (validate {} schema case.value).result ≠ .error .endless

theorem Case.runJson_of_case {value : Json} {case : Case} (isCase : ofJson value = .ok case) :
    runJson value = case.run := by
  rw [runJson, isCase]
  rfl

/-- A case whose schema can be read compares the findings, once the schema is verified. -/
theorem Case.run_of_schema {case : Case} {schema : Schema}
    (isSchema : Schema.ofJson case.schema = .ok schema) :
    case.run = schema.verify.mapError .invalidSchema >>= fun _ =>
      (validate {} schema case.value).result.mapError .aborted >>= fun actual =>
        if actual = case.findings then .ok ()
        else .error (.otherFindings case.findings actual) := by
  rw [run, isSchema]
  rfl

/-- Running the case that a value describes tells whether it passes, and why it does not. -/
theorem Case.runJson_cases {value : Json} (ends : Ends value) :
    (runJson value = .ok () ∧ Meets value) ∨
      ∃ failure, runJson value = .error failure ∧ Misses value failure := by
  cases isCase : Case.ofJson value with
  | error error =>
      refine .inr ⟨_, ?_, .malformed isCase⟩
      rw [runJson, isCase]
      rfl
  | ok case =>
      rw [runJson_of_case isCase]
      cases isSchema : Schema.ofJson case.schema with
      | error error =>
          refine .inr ⟨_, ?_, .unreadableSchema isCase isSchema⟩
          rw [run, isSchema]
          rfl
      | ok schema =>
          cases isVerified : schema.verify with
          | error violation =>
              refine .inr ⟨_, ?_, .invalidSchema isCase isSchema isVerified⟩
              rw [run_of_schema isSchema, isVerified]
              rfl
          | ok _ =>
              rw [run_of_schema isSchema, isVerified]
              cases isFound : (validate {} schema case.value).result with
              | error abort =>
                  obtain ⟨_, isLimit, -⟩ | ⟨-, rfl⟩ := limit_of_abort isFound
                  · cases isLimit
                  · exact absurd isFound (ends case schema isCase isSchema isVerified)
              | ok actual =>
                  by_cases same : actual = case.findings
                  · subst same
                    exact .inl ⟨if_pos rfl, case, schema, isCase, isSchema, isVerified, isFound⟩
                  · exact .inr ⟨_, if_neg same,
                      .otherFindings isCase isSchema isVerified isFound same⟩

/-- A case is read from its parts, whatever else is beside them. -/
theorem Case.ofJson_of_members {members : List (String × Json)} {schema value : Json}
    {findings : List Finding} (isSchema : members.lookup "schema" = some schema)
    (isInstance : members.lookup "instance" = some value)
    (areErrors : members.lookup "errors" = some (.array (findings.map Finding.toJson))) :
    ofJson (.object members) = .ok ⟨schema, value, findings⟩ := by
  have areRead : findingList (.array (findings.map Finding.toJson)) = .ok findings :=
    Finding.items_ofJson_toJson findings 0
  simp only [ofJson, ofMembers, isSchema, isInstance, areErrors, areRead, Decode.under,
    Except.mapError]
  rfl

/-- A value records what validating gives: its `errors` are the written form of the findings. -/
def Recorded (value : Json) : Prop :=
  ∃ members document item schema findings, value = .object members ∧
    members.lookup "schema" = some document ∧ members.lookup "instance" = some item ∧
    members.lookup "errors" = some (.array (findings.map Finding.toJson)) ∧
    Schema.ofJson document = .ok schema ∧ schema.verify = .ok () ∧
    (validate {} schema item).result = .ok findings

/-- What is recorded is what is found again. -/
theorem Recorded.meets {value : Json} (recorded : Recorded value) : Meets value := by
  obtain ⟨members, document, item, schema, findings, rfl, isDocument, isItem, areErrors, isSchema,
    isVerified, isFound⟩ := recorded
  exact ⟨⟨document, item, findings⟩, schema,
    Case.ofJson_of_members isDocument isItem areErrors, isSchema, isVerified, isFound⟩

/-! ## Schemas that must be rejected -/

/-- A value is no schema, or one that breaks a rule. -/
def Unusable (value : Json) : Prop :=
  (∃ error, Schema.ofJson value = .error error) ∨
    ∃ schema violation, Schema.ofJson value = .ok schema ∧ schema.verify = .error violation

/-- A value is a schema that is fine. -/
def Usable (value : Json) : Prop :=
  ∃ schema, Schema.ofJson value = .ok schema ∧ schema.verify = .ok ()

theorem checkRejected_cases (value : Json) :
    (checkRejected value = .ok () ∧ Unusable value) ∨
      checkRejected value = .error .accepted ∧ Usable value := by
  rw [checkRejected]
  cases isSchema : Schema.ofJson value with
  | error error => exact .inl ⟨rfl, .inl ⟨error, isSchema⟩⟩
  | ok schema =>
      cases isVerified : schema.verify with
      | error violation =>
          refine .inl ⟨?_, .inr ⟨schema, violation, isSchema, isVerified⟩⟩
          simp only [isVerified]
      | ok _ =>
          refine .inr ⟨?_, schema, isSchema, isVerified⟩
          simp only [isVerified]

/-- A named value in a suite: a case, or a schema that must be rejected. -/
inductive Entry where
  | case (name : String) (value : Json)
  | rejected (name : String) (value : Json)

namespace Entry

/-- The name of an entry. -/
def name : Entry → String
  | case name _ => name
  | rejected name _ => name

/-- What it takes for an entry to pass. -/
def Passes : Entry → Prop
  | case _ value => Meets value
  | rejected _ value => Unusable value

/-- Why an entry fails. -/
def FailsBy : Entry → CaseFailure → Prop
  | case _ value, failure => Misses value failure
  | rejected _ value, failure => failure = .accepted ∧ Usable value

/-- What becomes of an entry when it is run. -/
def outcome : Entry → CaseOutcome
  | case name value => ⟨name, Case.runJson value⟩
  | rejected name value => ⟨name, checkRejected value⟩

/-- An entry whose validation comes to an end, if there is one. -/
def Settles : Entry → Prop
  | case _ value => Ends value
  | rejected _ _ => True

/-- What is told about an entry: whether it passes, and the lines about it. -/
inductive Tells (verbose : Bool) (entry : Entry) : Bool × String → Prop
  | passes (passes : entry.Passes) :
      Tells verbose entry (true, if verbose then "PASS " ++ entry.name ++ "\n" else "")
  | fails {failure : CaseFailure} (fails : entry.FailsBy failure) :
      Tells verbose entry
        (false, "FAIL " ++ entry.name ++ "\n     " ++ failure.message ++ "\n")

/-- What becomes of an entry is what is told about it. -/
theorem Settles.tells {entry : Entry} (settles : entry.Settles) (verbose : Bool) :
    entry.Tells verbose (entry.outcome.passed, entry.outcome.text verbose) := by
  cases entry with
  | case name value =>
      obtain ⟨run, meets⟩ | ⟨failure, run, misses⟩ := Case.runJson_cases settles
      · simp only [outcome, CaseOutcome.passed, CaseOutcome.text, run]
        exact .passes meets
      · simp only [outcome, CaseOutcome.passed, CaseOutcome.text, run]
        exact .fails misses
  | rejected name value =>
      obtain ⟨run, unusable⟩ | ⟨run, usable⟩ := checkRejected_cases value
      · simp only [outcome, CaseOutcome.passed, CaseOutcome.text, run]
        exact .passes unusable
      · simp only [outcome, CaseOutcome.passed, CaseOutcome.text, run]
        exact .fails ⟨rfl, usable⟩

end Entry

end FormSchema.Suite
