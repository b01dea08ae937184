import FormSchema.Proofs.Command.Reporting
import FormSchema.Proofs.Decoding.Trailing

/-!
# Documents on lines

Of a text with a document on every line that is not blank, every document is kept, in the order of
the lines, and it does not matter how the lines end.  If a line is neither blank nor a document,
nothing is read, and the error tells the number of the first such line among all lines.

What the validation of values writes is such a text, whatever characters are in the names and
paths that it mentions: reading it gives the reports that were written.
-/

namespace FormSchema

/-! ## Lines that are read alike -/

/-- A line that is neither blank nor a document. -/
def Unread (line : List Char) : Prop :=
  Text.allBlank line = false ∧ ∀ document, Json.read (String.ofList line) ≠ .ok document

/-- Two lines are both blank or not, and hold the same document or none. -/
structure ReadAlike (line other : List Char) : Prop where
  blank : Text.allBlank line = Text.allBlank other
  document : ∀ document,
    Json.read (String.ofList line) = .ok document ↔ Json.read (String.ofList other) = .ok document

theorem ReadAlike.unread_iff {line other : List Char} (alike : ReadAlike line other) :
    Unread line ↔ Unread other := by
  rw [Unread, Unread, alike.blank]
  exact and_congr_right fun _ => forall_congr' fun document => not_congr (alike.document document)

/-- A carriage return at the end of a line does not matter. -/
theorem readAlike_of_sameButReturn {found line : List Char}
    (same : Text.SameButReturn found line) : ReadAlike found line := by
  obtain rfl | rfl := same
  · exact ⟨rfl, fun _ => Iff.rfl⟩
  · refine ⟨?_, fun document => (Json.read_concat_blank (by decide) found document).symm⟩
    have returnBlank : ['\r'].all Text.isBlank = true := by decide
    rw [Text.allBlank, Text.allBlank, List.all_append, returnBlank, Bool.and_true]

/-- A line that is not unread is blank or a document. -/
theorem not_unread_iff {line : List Char} :
    ¬ Unread line ↔
      (Text.allBlank line = false → ∃ document, Json.read (String.ofList line) = .ok document) := by
  rw [Unread, not_and]
  exact imp_congr_right fun _ => by simp only [ne_eq, not_forall, not_not]

/-! ## The first line that is not read -/

/-- The first line that is neither blank nor a document has the given number, where lines are
counted from one and blank lines count. -/
def FirstUnread (lines : List (List Char)) (number : Nat) : Prop :=
  ∃ before line after, lines = before ++ line :: after ∧ (∀ earlier ∈ before, ¬ Unread earlier) ∧
    Unread line ∧ number = before.length + 1

theorem FirstUnread.of_alike {lines others : List (List Char)} {number : Nat}
    (alike : List.Forall₂ ReadAlike lines others) (first : FirstUnread lines number) :
    FirstUnread others number := by
  induction alike generalizing number with
  | nil =>
      obtain ⟨before, line, after, split, -⟩ := first
      exact absurd split.symm (by simp)
  | @cons head other rest others headAlike _ inductionHypothesis =>
      obtain ⟨before, line, after, split, earlier, isUnread, rfl⟩ := first
      cases before with
      | nil =>
          cases split
          exact ⟨[], other, others, rfl, List.forall_mem_nil _, headAlike.unread_iff.mp isUnread,
            rfl⟩
      | cons _ before =>
          cases split
          obtain ⟨passes, earlier⟩ := List.forall_mem_cons.mp earlier
          obtain ⟨before, line, after, rfl, earlier, isUnread, same⟩ :=
            inductionHypothesis ⟨before, line, after, rfl, earlier, isUnread, rfl⟩
          refine ⟨other :: before, line, after, rfl, ?_, isUnread, congrArg Nat.succ same⟩
          exact List.forall_mem_cons.mpr ⟨mt headAlike.unread_iff.mpr passes, earlier⟩

/-! ## Reading lines -/

section Reading

variable {source : String} {lines : List (List Char)}

theorem Hold.of_alike {others : List (List Char)} {found : List Json}
    (alike : List.Forall₂ ReadAlike lines others) (hold : Hold lines found) :
    Hold others found := by
  induction alike generalizing found with
  | nil => exact hold
  | @cons head other rest others headAlike _ inductionHypothesis =>
      rw [hold_cons_iff] at hold ⊢
      rw [← headAlike.blank]
      by_cases isBlank : Text.allBlank head = true
      · rw [if_pos isBlank] at hold ⊢
        exact inductionHypothesis hold
      · rw [if_neg isBlank] at hold ⊢
        obtain ⟨first, later, isRead, hold, rfl⟩ := hold
        exact ⟨first, later, (headAlike.document first).mp isRead, inductionHypothesis hold, rfl⟩

/-- Reading fails at the first line that is not read, and its number is reported. -/
theorem documents_malformed_iff {text : String} {number : Nat} :
    (∃ cause, documents true source text = .error (.malformedLine source number cause)) ↔
      FirstUnread (Text.lines text.toList) number := by
  simp only [documents_eq_error_iff]
  constructor
  · rintro ⟨cause, ⟨⟨⟩⟩ | ⟨-, split, earlier, notBlank, isMalformed⟩⟩
    refine ⟨_, _, _, split, fun line isEarlier => not_unread_iff.mpr (earlier line isEarlier),
      ⟨notBlank, fun document isRead => ?_⟩, rfl⟩
    cases isMalformed.symm.trans isRead
  · rintro ⟨before, line, after, split, earlier, ⟨notBlank, notRead⟩, rfl⟩
    cases isMalformed : Json.read (String.ofList line) with
    | ok document => exact absurd isMalformed (notRead document)
    | error cause =>
        exact ⟨cause, .line rfl split
          (fun line isEarlier => not_unread_iff.mp (earlier line isEarlier)) notBlank isMalformed⟩

end Reading

/-- What is read from a text that spells the lines. -/
structure LinesRead (source text : String) (lines : List (List Char)) : Prop where
  documents : ∀ found, documents true source text = .ok found ↔ Hold lines found
  failure : ∀ error, FormSchema.documents true source text = .error error →
    ∃ number cause, error = .malformedLine source number cause
  number : ∀ number,
    (∃ cause, FormSchema.documents true source text = .error (.malformedLine source number cause)) ↔
      FirstUnread lines number

theorem ReadAlike.symm {line other : List Char} (alike : ReadAlike line other) :
    ReadAlike other line :=
  ⟨alike.blank.symm, fun document => (alike.document document).symm⟩

/-- However a text spells lines, it is these lines that are read. -/
theorem linesRead_of_spells {text : String} {lines : List (List Char)}
    (spells : Text.Spells text.toList lines) (source : String) : LinesRead source text lines := by
  have alike := spells.forall₂_lines.imp fun _ _ same => readAlike_of_sameButReturn same
  have back : List.Forall₂ ReadAlike lines (Text.lines text.toList) :=
    alike.flip.imp fun _ _ same => same.symm
  refine ⟨fun found => ?_, fun error fails => ?_, fun number => ?_⟩
  · rw [FormSchema.documents, if_pos rfl, documentsOnLines_eq_ok_iff]
    exact ⟨Hold.of_alike alike, Hold.of_alike back⟩
  · obtain ⟨⟨⟩⟩ | ⟨-, -⟩ := documents_eq_error_iff.mp fails
    exact ⟨_, _, rfl⟩
  · rw [documents_malformed_iff]
    exact ⟨FirstUnread.of_alike alike, FirstUnread.of_alike back⟩

/-! ## Reports are read back -/

section Reports

variable {text : String} {reports : List Report}

theorem Report.not_blank (report : Report) : Text.allBlank report.toJson.compactChars = false := by
  obtain ⟨rest, isObject⟩ : ∃ rest, report.toJson.compactChars = '\x7b' :: rest := ⟨_, rfl⟩
  have notBlank : Text.isBlank '\x7b' = false := by decide
  rw [isObject, Text.allBlank, List.all_cons, notBlank, Bool.false_and]

/-- Lines with reports hold the reports, if the indexes fit machine words. -/
theorem hold_reports (small : ∀ report ∈ reports, report.index ≤ Numeral.wordMax) :
    Hold (reports.map fun report => report.toJson.compactChars) (reports.map Report.toJson) := by
  have unfiltered : (reports.map fun report => report.toJson.compactChars).filter
      (fun line => !Text.allBlank line) =
        reports.map fun report => report.toJson.compactChars := by
    refine List.filter_eq_self.mpr fun line isLine => ?_
    obtain ⟨report, -, rfl⟩ := List.mem_map.mp isLine
    rw [report.not_blank, Bool.not_false]
  rw [Hold, unfiltered, List.forall₂_map_left_iff, List.forall₂_map_right_iff, List.forall₂_same]
  exact fun report isReport => report.read_compact (small report isReport)

/-- The reports on values have the indexes of these. -/
theorem small_of_reportsOn {options : Options} {schema : Schema} {instances : List Instance}
    (areReports : reportsOn options schema instances = .ok reports)
    (small : ∀ item ∈ instances, item.index ≤ Numeral.wordMax) :
    ∀ report ∈ reports, report.index ≤ Numeral.wordMax := by
  have indexes : instances.map Instance.index = reports.map Report.index := by
    rw [← List.forall₂_eq_eq_eq, List.forall₂_map_left_iff, List.forall₂_map_right_iff]
    exact (reportsOn_eq_ok_iff.mp areReports).imp fun _ _ isReport =>
      (Report.origin_of_ofValidation isReport).2.symm
  intro report isReport
  have isIndex : report.index ∈ instances.map Instance.index :=
    indexes ▸ List.mem_map_of_mem isReport
  obtain ⟨item, isItem, same⟩ := List.mem_map.mp isIndex
  exact same ▸ small item isItem

theorem documents_of_reports (source : String)
    (small : ∀ report ∈ reports, report.index ≤ Numeral.wordMax)
    (areLines : Text.lines text.toList = reports.map fun report => report.toJson.compactChars) :
    documents true source text = .ok (reports.map Report.toJson) := by
  rw [documents, if_pos rfl, documentsOnLines_eq_ok_iff, areLines]
  exact hold_reports small

/-- The text that tells reports has one of them on each line. -/
theorem Outcome.Tells.exists_lines {outcome : Outcome} {out : Option String}
    (tells : outcome.Tells out (reports.map Report.toJson)) :
    ∃ text, outcome.written out = .ok text ∧
      Text.lines text.toList = reports.map fun report => report.toJson.compactChars := by
  obtain ⟨text, isWritten, areLines⟩ := tells.lines
  refine ⟨text, isWritten, ?_⟩
  have injective : Function.Injective String.ofList := fun _ _ same => String.ofList_injective same
  have compact : (reports.map Report.toJson).map Json.compact =
      (reports.map fun report => report.toJson.compactChars).map String.ofList := by
    rw [List.map_map, List.map_map]
    rfl
  exact List.map_injective_iff.mpr injective (areLines.trans compact)

end Reports

/-- Every text spells lines, and it is these lines that are read, however they end: their documents,
or the number of the first of them that is neither blank nor a document.  Reports that are written
are read back, and so is everything that a validation writes. -/
theorem line_documents_faithful (source : String) :
    (∀ text : String, ∃ lines, Text.Spells text.toList lines) ∧
    (∀ (text : String) (lines : List (List Char)), Text.Spells text.toList lines →
      LinesRead source text lines) ∧
    (∀ (out : Option String) (reports : List Report),
      (∀ report ∈ reports, report.index ≤ Numeral.wordMax) →
        documents true source (Plan.ofReports out reports).output =
          .ok (reports.map Report.toJson)) ∧
    ∀ (language : FilterLanguage) (files : FileTree) (path : String) (selection : Selection)
      (options : Options) (out : Option String) (schema : Schema)
      (occurrences : List Occurrence),
      SchemaLoads files path schema → Selects language files selection occurrences →
      AllEnd options schema (occurrences.flatMap Occurrence.instances) → files.CanTake out →
      (∀ item ∈ occurrences.flatMap Occurrence.instances, item.index ≤ Numeral.wordMax) →
        ∃ text reports,
          ((Command.validate path selection options out).run language files).written out =
            .ok text ∧
          reportsOn options schema (occurrences.flatMap Occurrence.instances) = .ok reports ∧
          documents true source text = .ok (reports.map Report.toJson) := by
  refine ⟨fun text => ⟨_, Text.spells_lines text.toList⟩,
    fun text lines spells => linesRead_of_spells spells source, fun out reports small => ?_, ?_⟩
  · exact documents_of_reports source small (lines_output out reports)
  · intro language files path selection options out schema occurrences schemaLoads selects allEnd
      canTake small
    obtain ⟨reports, areReports⟩ := exists_reportsOn allEnd
    have tells := Command.tells_run schemaLoads selects canTake areReports
    obtain ⟨text, isWritten, areLines⟩ := tells.exists_lines
    exact ⟨text, reports, isWritten, areReports,
      documents_of_reports source (small_of_reportsOn areReports small) areLines⟩

/-- A line feed in the name of a file is no line feed in what is written about the file.  Blank
lines count where the third line is the first one that is not a document. -/
theorem line_documents_faithful_name_with_line_feed :
    let files : FileTree :=
      { files := [(["schema"], "\x7b\"type\":\"string\"\x7d".toUTF8),
          (["a\r\nb"], "\"x\"\r\n\r\nnull".toUTF8)] }
    let schema : Schema := { type := some .string }
    let selection : Selection := { inputs := ["a\r\nb"], ndjson := true }
    (∀ found, documents true "a\r\nb" "\"x\"\r\n\r\nnull" = .ok found ↔
      found = [.string "x", .null]) ∧
    (∃ cause, documents true "log" "1\n\t\r\n[\n2" = .error (.malformedLine "log" 3 cause)) ∧
    SchemaLoads files "schema" schema ∧
    Selects Filter.language files selection [⟨"a\r\nb", [[.string "x"], [.null]]⟩] ∧
    files.CanTake none ∧
    ∃ text reports,
      ((Command.validate "schema" selection {} none).run Filter.language files).written none =
        .ok text ∧
      reportsOn {} schema [⟨"a\r\nb", 0, .string "x"⟩, ⟨"a\r\nb", 1, .null⟩] = .ok reports ∧
      documents true "copy" text = .ok (reports.map Report.toJson) := by
  intro files schema selection
  have isFirst : Json.read (String.ofList ['"', 'x', '"']) = .ok (.string "x") := by
    rw [Json.read, Reader.run, Cursor.start_ofList]
    rfl
  have isSecond : Json.read (String.ofList ['n', 'u', 'l', 'l']) = .ok .null := by
    rw [Json.read, Reader.run, Cursor.start_ofList]
    rfl
  have isNumber : Json.read (String.ofList ['1']) = .ok (.number (.integer 1)) := by
    rw [Json.read, Reader.run, Cursor.start_ofList]
    rfl
  have isUnfinished : ∃ cause, Json.read (String.ofList ['[']) = .error cause := by
    rw [Json.read, Reader.run, Cursor.start_ofList]
    exact ⟨_, rfl⟩
  have spells : Text.Spells "\"x\"\r\n\r\nnull".toList
      [['"', 'x', '"'], [], ['n', 'u', 'l', 'l']] :=
    Text.spells_lines _
  have spellsBroken : Text.Spells "1\n\t\r\n[\n2".toList [['1'], ['\t'], ['['], ['2']] :=
    Text.spells_lines _
  have holds : Hold [['"', 'x', '"'], [], ['n', 'u', 'l', 'l']] [.string "x", .null] :=
    .cons isFirst (.cons isSecond .nil)
  have firstUnread : FirstUnread [['1'], ['\t'], ['['], ['2']] 3 := by
    refine ⟨[['1'], ['\t']], ['['], [['2']], rfl, ?_, ⟨rfl, fun document isRead => ?_⟩, rfl⟩
    · refine List.forall_mem_cons.mpr ⟨not_unread_iff.mpr fun _ => ⟨_, isNumber⟩, ?_⟩
      exact List.forall_mem_singleton.mpr fun isUnread => by cases isUnread.1
    · obtain ⟨cause, isMalformed⟩ := isUnfinished
      cases isMalformed.symm.trans isRead
  have schemaLoads : SchemaLoads files "schema" schema :=
    ⟨_, FileTree.readText_of_content rfl rfl, Schema.readLeading_string, rfl⟩
  have documentsOf := ((line_documents_faithful "a\r\nb").2.1 _ _ spells).documents
  have selects : Selects Filter.language files selection
      [⟨"a\r\nb", [[.string "x"], [.null]]⟩] :=
    ⟨_, none, .cons (.path rfl) .nil, .none, .cons ⟨rfl, _, _,
      FileTree.readText_of_content rfl rfl, .lines rfl holds,
      .cons ⟨_, .whole, .same⟩ (.cons ⟨_, .whole, .same⟩ .nil)⟩ .nil⟩
  refine ⟨fun found => ?_, ?_, schemaLoads, selects, files.canTake_none, ?_⟩
  · constructor
    · intro areFound
      have same := areFound.symm.trans ((documentsOf _).mpr holds)
      exact Except.ok.inj same
    · rintro rfl
      exact (documentsOf _).mpr holds
  · exact (((line_documents_faithful "log").2.1 _ _ spellsBroken).number 3).mpr firstUnread
  · have small : ∀ item ∈ [(⟨"a\r\nb", [[.string "x"], [.null]]⟩ : Occurrence)].flatMap
        Occurrence.instances, item.index ≤ Numeral.wordMax := by decide
    exact (line_documents_faithful "copy").2.2.2 Filter.language files "schema" selection {} none
      schema _ schemaLoads selects (by decide) files.canTake_none small

end FormSchema
