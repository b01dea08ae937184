import FormSchema.Proofs.Command.Loading

/-!
# What commands come to

A command first makes a plan and then carries it out.  If there is no plan, the command fails with
the reason for that and leaves everything as it is.  A plan can only fail on the file for the
reports.

Validating values has a plan only if each of the validations ends.
-/

namespace FormSchema

/-! ## Reports -/

/-- The reports on values, if each of them can be validated to the end. -/
def reportsOn (options : Options) (schema : Schema) (instances : List Instance) :
    Except CommandError (List Report) :=
  reportEach instances (validateEach options schema instances)

/-- Each of the values can be validated to the end. -/
def AllEnd (options : Options) (schema : Schema) (instances : List Instance) : Prop :=
  ∀ item ∈ instances, (validate options schema item.value).result ≠ .error .endless

instance (options : Options) (schema : Schema) (instances : List Instance) :
    Decidable (AllEnd options schema instances) :=
  inferInstanceAs (Decidable (∀ item ∈ instances, _))

theorem AllEnd.append {options : Options} {schema : Schema} {instances more : List Instance}
    (allEnd : AllEnd options schema instances) (moreEnd : AllEnd options schema more) :
    AllEnd options schema (instances ++ more) :=
  List.forall_mem_append.mpr ⟨allEnd, moreEnd⟩

/-- Only a validation that never ends leaves nothing to report. -/
theorem Report.ofValidation_eq_error_iff {item : Instance} {validation : Validation}
    {error : CommandError} :
    ofValidation item validation = .error error ↔
      validation.result = .error .endless ∧ error = .endless := by
  unfold ofValidation
  split
  · rename_i isResult
    exact iff_of_false nofun fun ⟨never, _⟩ => by cases isResult.symm.trans never
  · rename_i isResult
    exact iff_of_false nofun fun ⟨never, _⟩ => by cases isResult.symm.trans never
  · rename_i never
    constructor
    · rintro ⟨⟩
      exact ⟨never, rfl⟩
    · rintro ⟨-, rfl⟩
      rfl

section

variable {options : Options} {schema : Schema} {instances : List Instance} {reports : List Report}

theorem reportsOn_eq_mapM :
    reportsOn options schema instances =
      instances.mapM fun item => Report.ofValidation item (validate options schema item.value) := by
  rw [reportsOn, reportEach, validateEach]
  induction instances with
  | nil => rfl
  | cons item rest inductionHypothesis =>
      rw [List.map_cons, List.zip_cons_cons, List.mapM_cons, List.mapM_cons, inductionHypothesis]

theorem reportsOn_eq_ok_iff :
    reportsOn options schema instances = .ok reports ↔
      List.Forall₂ (fun item report =>
        Report.ofValidation item (validate options schema item.value) = .ok report)
        instances reports := by
  rw [reportsOn_eq_mapM, Attempt.mapM_eq_ok_iff]

theorem allEnd_of_reportsOn (areReports : reportsOn options schema instances = .ok reports) :
    AllEnd options schema instances := by
  have both := (reportsOn_eq_ok_iff.mp areReports).imp (S := fun item report =>
      (validate options schema item.value).result ≠ .error .endless ∧
        Report.ofValidation item (validate options schema item.value) = .ok report)
    fun item report isReport => by
      refine ⟨fun never => ?_, isReport⟩
      cases isReport.symm.trans (Report.ofValidation_eq_error_iff.mpr ⟨never, rfl⟩)
  exact ((List.forall₂_and_left _ _).mp both).1

theorem endless_of_reportsOn {error : CommandError}
    (fails : reportsOn options schema instances = .error error) :
    error = .endless ∧ ¬ AllEnd options schema instances := by
  rw [reportsOn_eq_mapM] at fails
  obtain ⟨before, item, after, rfl, -, fails⟩ := Attempt.mapM_eq_error_iff.mp fails
  obtain ⟨never, rfl⟩ := Report.ofValidation_eq_error_iff.mp fails
  exact ⟨rfl, fun allEnd => allEnd item (List.mem_append_right _ List.mem_cons_self) never⟩

/-- There is nothing to report if and only if a validation never ends. -/
theorem reportsOn_eq_error_iff {error : CommandError} :
    reportsOn options schema instances = .error error ↔
      error = .endless ∧ ¬ AllEnd options schema instances := by
  refine ⟨endless_of_reportsOn, ?_⟩
  rintro ⟨rfl, notAllEnd⟩
  cases isDone : reportsOn options schema instances with
  | ok reports => exact absurd (allEnd_of_reportsOn isDone) notAllEnd
  | error error => rw [(endless_of_reportsOn isDone).1]

theorem exists_reportsOn (allEnd : AllEnd options schema instances) :
    ∃ reports, reportsOn options schema instances = .ok reports := by
  cases isDone : reportsOn options schema instances with
  | ok reports => exact ⟨reports, rfl⟩
  | error error => exact absurd allEnd (endless_of_reportsOn isDone).2

end

namespace Command

variable {language : FilterLanguage} {files : FileTree} {error : CommandError}

/-! ## Plans -/

theorem outcome_plan_verify (path : String) (print : Bool) :
    Job.outcome files ((Command.verify path print).plan language) =
      (Job.loadSchema path).outcome files >>= fun schema => .ok (.ofSchema path print schema) := by
  rw [Command.plan, Job.outcome_bind fun _ => Job.steady_pure _]
  rfl

/-- What becomes of the selected values. -/
def settleReports (options : Options) (out : Option String) (schema : Schema)
    (instances : List Instance) : Job (ReaderM FileTree) Plan := do
  let reports ← Job.reportAll instances (validateEach options schema instances)
  Job.logValidations (validateEach options schema instances)
  return .ofReports out reports

theorem plan_validate_eq (path : String) (selection : Selection) (options : Options)
    (out : Option String) :
    ((Command.validate path selection options out).plan language :
      Job (ReaderM FileTree) Plan) =
      Job.loadSchema path >>= fun schema =>
        Job.loadInstances language selection >>= settleReports options out schema :=
  rfl

theorem steady_logValidations (validations : List Validation) :
    Job.Steady (Job.logValidations validations) := by
  unfold Job.logValidations
  split
  · exact Job.steady_log _
  · exact Job.steady_pure _

theorem outcome_logValidations (validations : List Validation) :
    (Job.logValidations validations).outcome files = .ok () := by
  unfold Job.logValidations
  split <;> rfl

theorem steady_reportAll (instances : List Instance) (validations : List Validation) :
    Job.Steady (Job.reportAll instances validations) := by
  unfold Job.reportAll
  split
  · exact Job.steady_pure _
  · exact Job.steady_throw _

theorem outcome_reportAll (instances : List Instance) (validations : List Validation) :
    (Job.reportAll instances validations).outcome files = reportEach instances validations := by
  unfold Job.reportAll
  cases reportEach instances validations <;> rfl

theorem steady_settleReports (options : Options) (out : Option String) (schema : Schema)
    (instances : List Instance) : Job.Steady (settleReports options out schema instances) :=
  (steady_reportAll _ _).bind fun _ =>
    (steady_logValidations _).bind fun _ => Job.steady_pure _

theorem outcome_settleReports (options : Options) (out : Option String) (schema : Schema)
    (instances : List Instance) :
    (settleReports options out schema instances).outcome files =
      reportsOn options schema instances >>= fun reports => .ok (.ofReports out reports) := by
  rw [settleReports, Job.outcome_bind fun _ =>
    (steady_logValidations _).bind fun _ => Job.steady_pure _, outcome_reportAll]
  refine congrArg _ (funext fun reports => ?_)
  rw [Job.outcome_bind fun _ => Job.steady_pure _, outcome_logValidations]
  rfl

theorem outcome_plan_validate (path : String) (selection : Selection) (options : Options)
    (out : Option String) :
    Job.outcome files ((Command.validate path selection options out).plan language) =
      (Job.loadSchema path).outcome files >>= fun schema =>
        (Job.loadInstances language selection).outcome files >>= fun instances =>
          reportsOn options schema instances >>= fun reports => .ok (.ofReports out reports) := by
  rw [plan_validate_eq, Job.outcome_bind fun schema =>
    Job.steady_loadInstances.bind (steady_settleReports options out schema)]
  refine congrArg _ (funext fun schema => ?_)
  rw [Job.outcome_bind (steady_settleReports options out schema)]
  exact congrArg _ (funext fun instances => outcome_settleReports options out schema instances)

section

variable {path : String} {selection : Selection} {options : Options} {out : Option String}

/-- A command has no plan exactly if its schema or its values cannot be had, or if validating one of
these never ends. -/
theorem outcome_plan_validate_eq_error_iff :
    Job.outcome files ((Command.validate path selection options out).plan language) =
        .error error ↔
      SchemaFails files path error ∨
        ∃ schema, SchemaLoads files path schema ∧
          (SelectionFails language files selection error ∨
            ∃ occurrences, Selects language files selection occurrences ∧ error = .endless ∧
              ¬ AllEnd options schema (occurrences.flatMap Occurrence.instances)) := by
  simp only [outcome_plan_validate, Attempt.bind_eq_error_iff, Job.loadSchema_eq_ok_iff,
    Job.loadSchema_eq_error_iff, Job.loadInstances_eq_error_iff, Job.loadInstances_eq_ok_iff,
    reportsOn_eq_error_iff]
  refine or_congr_right (exists_congr fun schema => and_congr_right fun _ => or_congr_right ?_)
  constructor
  · rintro ⟨_, ⟨occurrences, selects, rfl⟩, never | ⟨_, _, ⟨⟩⟩⟩
    exact ⟨occurrences, selects, never⟩
  · rintro ⟨occurrences, selects, never⟩
    exact ⟨_, ⟨occurrences, selects, rfl⟩, .inl never⟩

theorem outcome_plan_validate_eq_ok_iff {plan : Plan} :
    Job.outcome files ((Command.validate path selection options out).plan language) = .ok plan ↔
      ∃ schema occurrences reports, SchemaLoads files path schema ∧
        Selects language files selection occurrences ∧
        reportsOn options schema (occurrences.flatMap Occurrence.instances) = .ok reports ∧
        plan = .ofReports out reports := by
  simp only [outcome_plan_validate, Attempt.bind_eq_ok_iff, Job.loadSchema_eq_ok_iff,
    Job.loadInstances_eq_ok_iff]
  constructor
  · rintro ⟨schema, schemaLoads, _, ⟨occurrences, selects, rfl⟩, reports, areReports, ⟨⟩⟩
    exact ⟨schema, occurrences, reports, schemaLoads, selects, areReports, rfl⟩
  · rintro ⟨schema, occurrences, reports, schemaLoads, selects, areReports, rfl⟩
    exact ⟨schema, schemaLoads, _, ⟨occurrences, selects, rfl⟩, reports, areReports, rfl⟩

end

/-! ## Runs -/

/-- A command carries out its plan.  Without a plan it fails, and leaves everything as it is. -/
theorem run_eq (command : Command) (language : FilterLanguage) (files : FileTree) :
    command.run language files =
      match Job.outcome files (command.plan language) with
      | .error error =>
          { result := .error error, files, events := Job.events files (command.plan language) }
      | .ok plan => plan.carryOut files (Job.events files (command.plan language)) := by
  unfold run Job.outcome Job.events
  dsimp only
  generalize ((command.plan language : Job (ReaderM FileTree) Plan).run.run []).run files = ran
  obtain ⟨ending, events⟩ := ran
  cases ending <;> rfl

end Command

end FormSchema
