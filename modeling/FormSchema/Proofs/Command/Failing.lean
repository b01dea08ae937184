import FormSchema.Filter.Reader
import FormSchema.Proofs.Command.Runs
import FormSchema.Proofs.Decoding.Locality
import FormSchema.Proofs.Files.Writing

/-!
# Commands that fail

A command fails in the first of its stages that fails, and a command that fails has written
nothing: not to standard output, and not to any file.  The file for the reports is not touched
either, since it is the last stage that creates it.
-/

namespace FormSchema

/-! ## The file for the reports -/

namespace Plan

variable {plan : Plan} {files : FileTree} {events : List Event} {error : CommandError}

/-- The file for the reports cannot be created, or the directory that it lies in. -/
inductive TargetFails (files : FileTree) (target : String) : CommandError → Prop
  | directory {error : FileError} (notCreated : files.createParent target = .error error) :
      TargetFails files target (.directoryNotCreated error)
  | file {prepared : FileTree} {error : FileError}
      (isCreated : files.createParent target = .ok prepared)
      (notWritten : ∀ text, prepared.writeText target text = .error error) :
      TargetFails files target (.outputNotCreated target error)

/-- Carrying out a plan fails exactly on the file for the reports. -/
theorem carryOut_eq_error_iff :
    (plan.carryOut files events).result = .error error ↔
      ∃ target, plan.target = some target ∧ TargetFails files target error := by
  unfold carryOut
  constructor
  · intro fails
    split at fails
    · cases fails
    · rename_i target isTarget
      refine ⟨target, isTarget, ?_⟩
      split at fails
      · cases fails
        exact .directory ‹_›
      · rename_i prepared isCreated
        split at fails
        · rename_i notWritten
          cases fails
          exact .file isCreated (FileTree.writeText_error notWritten)
        · cases fails
  · rintro ⟨target, isTarget, notCreated | ⟨isCreated, notWritten⟩⟩
    · rw [isTarget]
      dsimp only
      rw [notCreated]
    · rw [isTarget]
      dsimp only
      rw [isCreated]
      dsimp only
      rw [notWritten]

/-- A plan that fails writes nothing. -/
theorem untouched_of_carryOut (fails : (plan.carryOut files events).result = .error error) :
    (plan.carryOut files events).stdout = "" ∧
      (plan.carryOut files events).files.files = files.files := by
  obtain ⟨target, isTarget, targetFails⟩ := carryOut_eq_error_iff.mp fails
  unfold carryOut
  rw [isTarget]
  cases targetFails with
  | directory notCreated =>
      dsimp only
      rw [notCreated]
      exact ⟨rfl, rfl⟩
  | file isCreated notWritten =>
      dsimp only
      rw [isCreated]
      dsimp only
      rw [notWritten]
      exact ⟨rfl, FileTree.createParent_files isCreated⟩

end Plan

namespace Command

variable {language : FilterLanguage} {files : FileTree} {command : Command} {error : CommandError}

/-- The file with the schema of a command. -/
def schemaPath : Command → String
  | .verify path _ => path
  | .validate path _ _ _ => path

/-- Why a command fails: the first of its stages that fails.  A validation that never ends comes
before the file for the reports. -/
inductive Fails (language : FilterLanguage) (files : FileTree) : Command → CommandError → Prop
  | schema {command : Command} {error : CommandError}
      (fails : SchemaFails files command.schemaPath error) : Fails language files command error
  | selection {path : String} {schema : Schema} {selection : Selection} {options : Options}
      {out : Option String} {error : CommandError} (schemaLoads : SchemaLoads files path schema)
      (fails : SelectionFails language files selection error) :
      Fails language files (.validate path selection options out) error
  | endless {path : String} {schema : Schema} {selection : Selection}
      {occurrences : List Occurrence} {options : Options} {out : Option String}
      (schemaLoads : SchemaLoads files path schema)
      (selects : Selects language files selection occurrences)
      (notAllEnd : ¬ AllEnd options schema (occurrences.flatMap Occurrence.instances)) :
      Fails language files (.validate path selection options out) .endless
  | target {path : String} {schema : Schema} {selection : Selection}
      {occurrences : List Occurrence} {options : Options} {target : String} {error : CommandError}
      (schemaLoads : SchemaLoads files path schema)
      (selects : Selects language files selection occurrences)
      (allEnd : AllEnd options schema (occurrences.flatMap Occurrence.instances))
      (fails : Plan.TargetFails files target error) :
      Fails language files (.validate path selection options (some target)) error

/-- A command fails if it has no plan, or if the plan fails. -/
theorem run_eq_error_iff :
    (command.run language files).result = .error error ↔
      Job.outcome files (command.plan language) = .error error ∨
      ∃ plan, Job.outcome files (command.plan language) = .ok plan ∧
        ∃ target, plan.target = some target ∧ Plan.TargetFails files target error := by
  rw [run_eq]
  cases Job.outcome files (command.plan language) with
  | error fault =>
      constructor
      · rintro ⟨⟩
        exact .inl rfl
      · rintro (same | ⟨_, ⟨⟩, _⟩)
        cases same
        rfl
  | ok plan =>
      refine Plan.carryOut_eq_error_iff.trans ⟨fun fails => .inr ⟨plan, rfl, fails⟩, ?_⟩
      rintro (⟨⟨⟩⟩ | ⟨_, ⟨⟩, fails⟩)
      exact fails

/-- A command that fails writes nothing. -/
theorem untouched_of_run (fails : (command.run language files).result = .error error) :
    (command.run language files).stdout = "" ∧
      (command.run language files).files.files = files.files := by
  rw [run_eq] at fails ⊢
  cases isPlan : Job.outcome files (command.plan language) with
  | error fault => exact ⟨rfl, rfl⟩
  | ok plan =>
      rw [isPlan] at fails
      exact Plan.untouched_of_carryOut fails

/-- A command fails exactly with the failure of its first stage that fails. -/
theorem run_eq_error_iff_fails :
    (command.run language files).result = .error error ↔ Fails language files command error := by
  rw [run_eq_error_iff]
  cases command with
  | verify path print =>
      rw [outcome_plan_verify, Attempt.bind_eq_error_iff, Job.loadSchema_eq_error_iff]
      constructor
      · rintro ((fails | ⟨_, _, ⟨⟩⟩) | ⟨plan, isPlan, target, isTarget, -⟩)
        · exact .schema fails
        · obtain ⟨schema, -, ⟨⟩⟩ := Attempt.bind_eq_ok_iff.mp isPlan
          cases isTarget
      · rintro ⟨fails⟩
        exact .inl (.inl fails)
  | validate path selection options out =>
      simp only [outcome_plan_validate_eq_error_iff, outcome_plan_validate_eq_ok_iff]
      constructor
      · rintro ((fails | ⟨schema, schemaLoads, fails | ⟨occurrences, selects, rfl, notAllEnd⟩⟩) |
          ⟨_, ⟨schema, occurrences, reports, schemaLoads, selects, areReports, rfl⟩, target,
            isTarget, fails⟩)
        · exact .schema fails
        · exact .selection schemaLoads fails
        · exact .endless schemaLoads selects notAllEnd
        · cases isTarget
          exact .target schemaLoads selects (allEnd_of_reportsOn areReports) fails
      · rintro (fails | ⟨schemaLoads, fails⟩ | ⟨schemaLoads, selects, notAllEnd⟩ |
          ⟨schemaLoads, selects, allEnd, fails⟩)
        · exact .inl (.inl fails)
        · exact .inl (.inr ⟨_, schemaLoads, .inl fails⟩)
        · exact .inl (.inr ⟨_, schemaLoads, .inr ⟨_, selects, rfl, notAllEnd⟩⟩)
        · obtain ⟨reports, areReports⟩ := exists_reportsOn allEnd
          exact .inr ⟨_, ⟨_, _, reports, schemaLoads, selects, areReports, rfl⟩, _, rfl, fails⟩

/-- A command that fails has written nothing to standard output, and every file has the content
that it had before.  It fails with the first of its stages that fails: the schema, the inputs, the
filter, the files one after the other, and only then the file for the reports.  This holds whatever
language the filter is written in, and it holds as well of a command that never ends. -/
theorem run_leaves_files_of_error (command : Command) (language : FilterLanguage)
    (files : FileTree) (error : CommandError) :
    ((command.run language files).result = .error error ↔ Fails language files command error) ∧
      ((command.run language files).result = .error error →
        (command.run language files).stdout = "" ∧
          ∀ place, (command.run language files).files.content? place = files.content? place) := by
  refine ⟨run_eq_error_iff_fails, fun fails => ?_⟩
  obtain ⟨silent, same⟩ := untouched_of_run fails
  exact ⟨silent, fun place => congrArg (List.lookup place) same⟩

/-- A line in the middle of a file is no document, and the same file is meant for the reports, under
a path from the root: it keeps its content. -/
theorem run_leaves_files_of_error_broken_line :
    let files : FileTree :=
      { files := [(["data", "schema"], "\x7b\x7d".toUTF8),
          (["data", "values"], "[1]\n\n\x7b\n[2]\n".toUTF8)]
        workingDirectory := ["data"] }
    let selection : Selection := { inputs := ["values"], ndjson := true, filter := some ".[]" }
    let command := Command.validate "/data/schema" selection {} (some "/data/values")
    let fault : DecodeError := ⟨[.unknown], .malformed .endInObject, some ⟨1, 1⟩⟩
    (command.run Filter.language files).result = .error (.malformedLine "values" 3 fault) ∧
      (command.run Filter.language files).stdout = "" ∧
      (command.run Filter.language files).files.content? ["data", "values"] =
        some "[1]\n\n\x7b\n[2]\n".toUTF8 := by
  intro files selection command fault
  have isSchema : Schema.readLeading "\x7b\x7d" = .ok {} := by
    have start : Cursor.start "\x7b\x7d" = ⟨['\x7b', '\x7d'], ⟨1, 0⟩⟩ := Cursor.start_ofList _
    rw [Schema.readLeading, Reader.run, start]
    rfl
  have isDocument : ∃ document, Json.read (String.ofList ['[', '1', ']']) = .ok document := by
    rw [Json.read, Reader.run, Cursor.start_ofList]
    exact ⟨_, rfl⟩
  have isMalformed : Json.read (String.ofList ['\x7b']) = .error fault := by
    rw [Json.read, Reader.run, Cursor.start_ofList]
    rfl
  have schemaLoads : SchemaLoads files "/data/schema" {} :=
    ⟨_, FileTree.readText_of_content rfl rfl, isSchema, rfl⟩
  have isBroken : TextFails true "values" "[1]\n\n\x7b\n[2]\n"
      (.malformedLine "values" 3 fault) := by
    have split : Text.lines "[1]\n\n\x7b\n[2]\n".toList =
        [['[', '1', ']'], []] ++ ['\x7b'] :: [['[', '2', ']']] := rfl
    refine .line rfl split (fun other isEarlier notBlank => ?_) rfl isMalformed
    obtain rfl | isBlank := List.mem_cons.mp isEarlier
    · exact isDocument
    · cases List.mem_singleton.mp isBlank
      cases notBlank
  have filterLoads : FilterLoads Filter.language (some ".[]")
      (some (.path .identity (.parts false .done))) := .some rfl
  have fails : Fails Filter.language files command (.malformedLine "values" 3 fault) :=
    .selection schemaLoads (.source (.cons (.path rfl) .nil) filterLoads (List.nil_append _).symm
      (List.forall_mem_nil _) (.malformed (FileTree.readText_of_content rfl rfl) isBroken))
  obtain ⟨failsExactly, untouched⟩ := run_leaves_files_of_error command Filter.language files
    (.malformedLine "values" 3 fault)
  have hasFailed := failsExactly.mpr fails
  exact ⟨hasFailed, (untouched hasFailed).1, (untouched hasFailed).2 ["data", "values"]⟩

end Command

end FormSchema
