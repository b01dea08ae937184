import FormSchema.Filter.Reader
import FormSchema.Proofs.Command.Runs
import FormSchema.Proofs.Files.Writing
import FormSchema.Proofs.Text.Lines
import FormSchema.Proofs.Validation.Allowance
import FormSchema.Proofs.Validation.Wire

/-!
# Reports on values

Validating values writes one line about each of them, in the order in which they are selected.  A
line is a JSON document that can be read again, and says what became of its value.  What is written
about inputs does not depend on the inputs before or behind them.
-/

namespace FormSchema

/-! ## Reports -/

namespace Report

variable {report : Report}

/-- The members of a report: what every report has, and its findings or the reason why there are
none. -/
theorem mem_toJson {name : String} {value : Json} {members : List (String × Json)}
    (isReport : report.toJson = .object members) (isMember : (name, value) ∈ members) :
    value = .string report.source ∨ value = .ofNat report.index ∨ value = .bool report.valid ∨
      (∃ findings, report.result = .ok findings ∧ value = .array (findings.map Finding.toJson)) ∨
      ∃ limit, report.result = .error limit ∧ value = .string (Abort.tooDeep limit).message := by
  cases isReport
  rcases List.mem_append.mp isMember with isCommon | isSpecial
  · simp only [List.mem_cons, Prod.mk.injEq, List.not_mem_nil, or_false] at isCommon
    obtain ⟨-, same⟩ | ⟨-, same⟩ | ⟨-, same⟩ := isCommon
    · exact .inl same
    · exact .inr (.inl same)
    · exact .inr (.inr (.inl same))
  · cases isResult : report.result with
    | ok findings =>
        rw [isResult] at isSpecial
        cases List.mem_singleton.mp isSpecial
        exact .inr (.inr (.inr (.inl ⟨findings, rfl, rfl⟩)))
    | error limit =>
        rw [isResult] at isSpecial
        cases List.mem_singleton.mp isSpecial
        exact .inr (.inr (.inr (.inr ⟨limit, rfl, rfl⟩)))

theorem legible_toJson {levels : Nat} (small : report.index ≤ Numeral.wordMax) :
    report.toJson.Legible (levels + 4) := by
  refine .object fun name value isMember => ?_
  obtain rfl | rfl | rfl | ⟨findings, -, rfl⟩ | ⟨limit, -, rfl⟩ := mem_toJson rfl isMember
  · exact .string _
  · have least : -(Nat.pow 2 63 : Int) ≤ 0 := by decide
    exact .integer (Int.le_trans least (Int.natCast_nonneg _)) (Int.ofNat_le.mpr small)
  · exact .bool _
  · refine .array fun item isItem => ?_
    obtain ⟨finding, -, rfl⟩ := List.mem_map.mp isItem
    exact finding.legible_toJson
  · exact .string _

theorem proper_toJson (report : Report) : report.toJson.proper = true := by
  refine Json.proper_object_iff.mpr ⟨?_, fun name value isMember => ?_⟩
  · unfold Members.names
    cases report.result <;> simp
  · obtain rfl | rfl | rfl | ⟨findings, -, rfl⟩ | ⟨limit, -, rfl⟩ := mem_toJson rfl isMember
    · rfl
    · rfl
    · rfl
    · refine Json.proper_array_iff.mpr fun item isItem => ?_
      obtain ⟨finding, -, rfl⟩ := List.mem_map.mp isItem
      exact finding.proper_toJson
    · rfl

/-- A line can be read again if its index fits a machine word. -/
theorem read_compact (small : report.index ≤ Numeral.wordMax) :
    Json.read report.toJson.compact = .ok report.toJson :=
  Json.read_compact (legible_toJson small) (proper_toJson report)

end Report

/-! ## Lines -/

/-- What has no control character is found again as a line. -/
theorem isLine_of_printable {text : List Char} (isPrintable : Printable text) :
    Text.IsLine text where
  unbroken isInside := absurd (isPrintable '\n' isInside) (by decide)
  unreturned isLast := absurd (isPrintable '\r' (List.mem_of_getLast? isLast)) (by decide)

/-- The lines of reports are found again in what is written. -/
theorem lines_output (out : Option String) (reports : List Report) :
    Text.lines (Plan.ofReports out reports).output.toList =
      reports.map fun report => report.toJson.compactChars := by
  have written : (Plan.ofReports out reports).output.toList =
      (reports.map fun report => report.toJson.compactChars).flatMap (· ++ ['\n']) := by
    rw [Plan.ofReports, String.toList_join, List.flatMap_map, List.flatMap_map]
    refine congrArg (List.flatMap · reports) (funext fun report => ?_)
    rw [Report.line, Json.compact, String.toList_append, String.toList_ofList]
    rfl
  rw [written]
  refine Text.lines_flatMap fun line isLine => ?_
  obtain ⟨report, -, rfl⟩ := List.mem_map.mp isLine
  exact isLine_of_printable (Json.printable_compactChars _)

/-! ## What a line says -/

/-- A report says where its value comes from. -/
theorem Report.origin_of_ofValidation {item : Instance} {validation : Validation}
    {report : Report} (isReport : ofValidation item validation = .ok report) :
    report.source = item.source ∧ report.index = item.index := by
  unfold ofValidation at isReport
  split at isReport <;> cases isReport <;> exact ⟨rfl, rfl⟩

/-- Does the document say that its value is not valid? -/
def Json.tellsInvalid (document : Json) : Bool :=
  match document.member? "valid" with
  | some (.bool valid) => !valid
  | _ => false

namespace Outcome

/-- The text that a command has written: to a file if it was told so, and otherwise to standard
output. -/
def written (outcome : Outcome) : Option String → Except FileError String
  | none => .ok outcome.stdout
  | some target => outcome.files.readText target

/-- The run has written one line for each of the documents, in order and nothing else, and it sums
them up. -/
structure Tells (outcome : Outcome) (out : Option String) (documents : List Json) : Prop where
  lines : ∃ text, outcome.written out = .ok text ∧
    (Text.lines text.toList).map String.ofList = documents.map Json.compact
  silent : out ≠ none → outcome.stdout = ""
  notice : outcome.stderr =
    Summary.notice ⟨documents.length, documents.countP Json.tellsInvalid⟩
  exitStatus : outcome.result = .ok (if documents.countP Json.tellsInvalid = 0 then 0 else 1)

end Outcome

/-- Reports can be written: to standard output, or to a file that can be created. -/
def FileTree.CanTake (files : FileTree) (out : Option String) : Prop :=
  ∀ target, out = some target → ∃ prepared, files.createParent target = .ok prepared ∧
    ∃ text written, prepared.writeText target text = .ok written

/-- Standard output takes every report. -/
theorem FileTree.canTake_none (files : FileTree) : files.CanTake none := by
  intro target isOut
  cases isOut

theorem Summary.ofReports_eq (reports : List Report) :
    Summary.ofReports reports = ⟨(reports.map Report.toJson).length,
      (reports.map Report.toJson).countP Json.tellsInvalid⟩ := by
  rw [Summary.ofReports, List.length_map, List.countP_map]
  rfl

/-- A plan for reports tells them all. -/
theorem Plan.tells_carryOut {files : FileTree} {out : Option String} (canTake : files.CanTake out)
    (reports : List Report) (events : List Event) :
    ((Plan.ofReports out reports).carryOut files events).Tells out
      (reports.map Report.toJson) := by
  have lines : (Text.lines (Plan.ofReports out reports).output.toList).map String.ofList =
      (reports.map Report.toJson).map Json.compact := by
    rw [lines_output, List.map_map, List.map_map]
    rfl
  have summary := Summary.ofReports_eq reports
  cases out with
  | none =>
      refine ⟨⟨_, rfl, lines⟩, fun isOut => absurd rfl isOut, ?_, ?_⟩
      · exact congrArg Summary.notice summary
      · exact congrArg (fun summary => Except.ok (Summary.exitStatus summary)) summary
  | some target =>
      obtain ⟨prepared, isCreated, text, _, canWrite⟩ := canTake target rfl
      obtain ⟨written, isWritten⟩ :=
        FileTree.exists_writeText canWrite (Plan.ofReports (some target) reports).output
      have isCarriedOut : (Plan.ofReports (some target) reports).carryOut files events =
          { stderr := (Summary.ofReports reports).notice,
            result := .ok (Summary.ofReports reports).exitStatus, files := written, events } := by
        have isTarget : (Plan.ofReports (some target) reports).target = some target := rfl
        simp only [carryOut, isTarget, isCreated, isWritten]
        rfl
      rw [isCarriedOut, summary]
      exact ⟨⟨_, FileTree.readText_writeText isWritten, lines⟩, fun _ => rfl, rfl, rfl⟩

/-! ## Inputs behind inputs -/

section

variable {language : FilterLanguage}

theorem FilterLoads.unique {text : Option String} {filter other : Option language.Program}
    (loads : FilterLoads language text filter) (otherLoads : FilterLoads language text other) :
    filter = other := by
  cases loads with
  | none =>
      cases otherLoads
      rfl
  | some isProgram =>
      cases otherLoads with
      | some isOther => rw [Except.ok.inj (isProgram.symm.trans isOther)]

/-- Inputs behind other inputs select what both of them select. -/
theorem Selects.append {files : FileTree} {selection : Selection} {inputs : List String}
    {occurrences more : List Occurrence} (selects : Selects language files selection occurrences)
    (selectsMore : Selects language files { selection with inputs } more) :
    Selects language files { selection with inputs := selection.inputs ++ inputs }
      (occurrences ++ more) := by
  obtain ⟨paths, filter, stand, filterLoads, areLoaded⟩ := selects
  obtain ⟨morePaths, other, moreStand, otherLoads, moreLoaded⟩ := selectsMore
  obtain rfl := filterLoads.unique otherLoads
  refine ⟨paths ++ morePaths, filter, List.rel_append stand moreStand, filterLoads, ?_⟩
  rw [List.flatten_append]
  exact List.rel_append areLoaded moreLoaded

end

/-- The text of a schema that takes strings. -/
theorem Schema.readLeading_string :
    Schema.readLeading "\x7b\"type\":\"string\"\x7d" = .ok { type := some .string } := by
  have start : Cursor.start "\x7b\"type\":\"string\"\x7d" =
      ⟨['\x7b', '"', 't', 'y', 'p', 'e', '"', ':', '"', 's', 't', 'r', 'i', 'n', 'g', '"', '\x7d'],
        ⟨1, 0⟩⟩ := Cursor.start_ofList _
  rw [Schema.readLeading, Reader.run, start]
  rfl

namespace Command

variable {language : FilterLanguage} {files : FileTree} {path : String} {schema : Schema}
  {selection : Selection} {occurrences : List Occurrence}

/-- A run that loads its schema and its inputs tells the reports on what it selects. -/
theorem tells_run {options : Options} {out : Option String} {reports : List Report}
    (schemaLoads : SchemaLoads files path schema)
    (selects : Selects language files selection occurrences) (canTake : files.CanTake out)
    (areReports :
      reportsOn options schema (occurrences.flatMap Occurrence.instances) = .ok reports) :
    ((Command.validate path selection options out).run language files).Tells out
      (reports.map Report.toJson) := by
  have isPlan : Job.outcome files ((Command.validate path selection options out).plan language) =
      .ok (.ofReports out reports) :=
    outcome_plan_validate_eq_ok_iff.mpr
      ⟨schema, occurrences, reports, schemaLoads, selects, areReports, rfl⟩
  rw [run_eq, isPlan]
  exact Plan.tells_carryOut canTake _ _

end Command

end FormSchema
