import FormSchema.Filter.Reader
import FormSchema.Proofs.Command.Runs
import FormSchema.Proofs.Files.Writing
import FormSchema.Proofs.Schema.Fitting

/-!
# Printing a schema

A schema that has been verified can be printed.  The printed text is a normal form: unknown
members, the order of keywords and the way in which types are given have gone, but the schema is
still the same.  Reading the printed text gives the schema back, since the text takes no more
levels of nesting than reading allowed for the schema.  So printing it again changes nothing.
-/

namespace FormSchema

/-- There is at most one schema to be loaded from a file. -/
theorem SchemaLoads.unique {files : FileTree} {path : String} {first second : Schema}
    (firstLoads : SchemaLoads files path first) (secondLoads : SchemaLoads files path second) :
    second = first := by
  have isFirst := Job.loadSchema_eq_ok_iff.mpr firstLoads
  have isSecond := Job.loadSchema_eq_ok_iff.mpr secondLoads
  rw [isFirst] at isSecond
  exact (Except.ok.inj isSecond).symm

namespace Command

variable {language : FilterLanguage} {files : FileTree} {path : String} {schema : Schema}

/-- Verifying a schema that can be loaded succeeds. -/
theorem run_verify_of_loads (language : FilterLanguage) (loads : SchemaLoads files path schema)
    (print : Bool) :
    ((Command.verify path print).run language files).result = .ok 0 ∧
      ((Command.verify path print).run language files).stdout =
        if print then schema.toJson.pretty ++ "\n" else "" := by
  rw [run_eq, outcome_plan_verify, Job.loadSchema_eq_ok_iff.mpr loads]
  exact ⟨rfl, rfl⟩

/-- Verifying succeeds for a schema that can be loaded only. -/
theorem exists_loads_of_run_verify {print : Bool} {status : Nat}
    (succeeds : ((Command.verify path print).run language files).result = .ok status) :
    ∃ schema, SchemaLoads files path schema := by
  cases isLoaded : (Job.loadSchema path).outcome files with
  | ok schema => exact ⟨schema, Job.loadSchema_eq_ok_iff.mp isLoaded⟩
  | error error =>
      rw [run_eq, outcome_plan_verify, isLoaded] at succeeds
      cases succeeds

/-- Printed schemas are a fixed point.  Wherever the text is put that printing a verified schema
gives, it can be verified and printed again, with the same text as before, and the schema that is
loaded from it is the same as the one that was printed, in the order of its entries as well.  So
every value has the same findings with it, whatever the limits are. -/
theorem verify_prints_fixed_point (language : FilterLanguage) (files : FileTree) (path : String)
    (status : Nat)
    (succeeds : ((Command.verify path true).run language files).result = .ok status)
    (printedFiles : FileTree) (printedPath : String)
    (isPrinted : printedFiles.readText printedPath =
      .ok ((Command.verify path true).run language files).stdout) :
    ((Command.verify printedPath true).run language printedFiles).result = .ok status ∧
    ((Command.verify printedPath true).run language printedFiles).stdout =
      ((Command.verify path true).run language files).stdout ∧
    ∃ schema, SchemaLoads files path schema ∧ SchemaLoads printedFiles printedPath schema ∧
      ∀ first second, SchemaLoads files path first → SchemaLoads printedFiles printedPath second →
        second = first ∧ ∀ options value,
          FormSchema.validate options second value = FormSchema.validate options first value := by
  obtain ⟨schema, loads⟩ := exists_loads_of_run_verify succeeds
  obtain ⟨result, isStdout⟩ := run_verify_of_loads language loads true
  rw [if_pos rfl] at isStdout
  have printedLoads : SchemaLoads printedFiles printedPath schema := by
    obtain ⟨text, -, isRead, verified⟩ := loads
    rw [isStdout] at isPrinted
    exact ⟨_, isPrinted, Schema.readLeading_pretty isRead "\n", verified⟩
  obtain ⟨printedResult, isPrintedStdout⟩ := run_verify_of_loads language printedLoads true
  rw [if_pos rfl] at isPrintedStdout
  refine ⟨printedResult.trans (result.symm.trans succeeds), isPrintedStdout.trans isStdout.symm,
    schema, loads, printedLoads, fun first second firstLoads secondLoads => ?_⟩
  obtain rfl := loads.unique firstLoads
  obtain rfl := printedLoads.unique secondLoads
  exact ⟨rfl, fun _ _ => rfl⟩

/-- A member that is no keyword and a type that is given as an object are normalised, and a name
with a quotation mark is printed in such a way that it can be read again. -/
theorem verify_prints_fixed_point_quoted_name :
    let text :=
      "\x7b\"properties\":\x7b\"\\\"\":\x7b\"type\":\x7b\"string\":null\x7d\x7d\x7d,\"x\":0\x7d"
    let printed :=
      "\x7b\n  \"properties\": \x7b\n    \"\\\"\": \x7b\n" ++
        "      \"type\": \"string\"\n    \x7d\n  \x7d\n\x7d\n"
    let files : FileTree := { files := [(["schema"], String.toUTF8 text)] }
    let printedFiles : FileTree := { files := [(["normal"], String.toUTF8 printed)] }
    ((Command.verify "/schema" true).run Filter.language files).result = .ok 0 ∧
    ((Command.verify "/schema" true).run Filter.language files).stdout = printed ∧
    printedFiles.readText "normal" = .ok printed ∧
    ((Command.verify "normal" true).run Filter.language printedFiles).result = .ok 0 ∧
    ((Command.verify "normal" true).run Filter.language printedFiles).stdout = printed := by
  intro text printed files printedFiles
  let schema : Schema := { properties := some [("\"", { type := some .string })] }
  have isRead : Schema.readLeading text = .ok schema := by
    have start : Cursor.start text =
        ⟨['\x7b', '"', 'p', 'r', 'o', 'p', 'e', 'r', 't', 'i', 'e', 's', '"', ':', '\x7b', '"',
          '\\', '"', '"', ':', '\x7b', '"', 't', 'y', 'p', 'e', '"', ':', '\x7b', '"', 's', 't',
          'r', 'i', 'n', 'g', '"', ':', 'n', 'u', 'l', 'l', '\x7d', '\x7d', '\x7d', ',', '"', 'x',
          '"', ':', '0', '\x7d'], ⟨1, 0⟩⟩ := Cursor.start_ofList _
    rw [Schema.readLeading, Reader.run, start]
    rfl
  have loads : SchemaLoads files "/schema" schema :=
    ⟨_, FileTree.readText_of_content rfl rfl, isRead, rfl⟩
  have isText : schema.toJson.pretty ++ "\n" = printed := rfl
  obtain ⟨succeeds, isStdout⟩ := run_verify_of_loads Filter.language loads true
  rw [if_pos rfl, isText] at isStdout
  have isPrinted : printedFiles.readText "normal" = .ok printed :=
    FileTree.readText_of_content rfl rfl
  obtain ⟨printedResult, printedStdout, -⟩ := verify_prints_fixed_point Filter.language files
    "/schema" 0 succeeds printedFiles "normal" (isPrinted.trans (congrArg Except.ok isStdout.symm))
  exact ⟨succeeds, isStdout, isPrinted, printedResult, printedStdout.trans isStdout⟩

end Command

end FormSchema
