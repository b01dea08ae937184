import FormSchema.Proofs.Validation.Breach
import FormSchema.Proofs.Validation.Findings

/-!
# What findings point to

A finding points into two documents.  Its place in the schema is that of a rule of some schema
in the tree, or in the tree of a definition, and its place in the value is that of what breaks
the rule.  So both of its pointers lead somewhere, and the reason for it can be looked up
there.  This holds of every schema, verified or not, and whatever the limits are.

References make the difference between the two places.  The place in the value goes on through
them, while the place in the schema begins anew at the definition, which is where the document
of the schema has it.

A place is unambiguous only if no object repeats a name.  That is asked of the value and of the
schema's document, and both have it if they have been read (`Json.proper_of_read`,
`Decode.proper_of_ofJson` and `Schema.proper_of_readLeading`).
-/

namespace FormSchema

/-- A finding is justified if its place in the schema is that of a rule, and what lies at its
place in the value is to blame for a breach of it. -/
inductive Justified (root : Schema) (value : Json) : Finding → Prop where
  | intro {schema : Schema} {place path suffix rule : List String} {tag : Option String}
      {broken : Json} (isPlaced : root.Placed place tag schema)
      (isWritten : root.toJson.at? place = some schema.toJson)
      (lies : value.at? path = some broken) (breach : Breach schema tag broken suffix rule) :
      Justified root value ⟨path ++ suffix, place ++ rule⟩

section Justified

variable {root : Schema} {value : Json}

/-- A finding of what lies inside a value is one of the value. -/
theorem Justified.under {innerValue : Json} {finding : Finding} {tokens : List String}
    (justified : Justified root innerValue finding) (lies : value.at? tokens = some innerValue) :
    Justified root value (finding.under tokens) := by
  obtain ⟨isPlaced, isWritten, inside, breach⟩ := justified
  rw [Finding.under, ← List.append_assoc]
  refine .intro isPlaced isWritten ?_ breach
  rw [Json.at?_append, lies, Option.bind_some, inside]

/-- The place of a justified finding in the value exists. -/
theorem Justified.exists_at? {finding : Finding} (justified : Justified root value finding) :
    ∃ blamed, value.at? finding.instancePath = some blamed := by
  obtain ⟨-, -, lies, breach⟩ := justified
  rw [Json.at?_append, lies]
  exact breach.exists_at?

/-- The place of a justified finding in the document of the schema exists. -/
theorem Justified.exists_at?_toJson {finding : Finding} (isProper : root.toJson.proper = true)
    (justified : Justified root value finding) :
    ∃ rule, root.toJson.at? finding.schemaPath = some rule := by
  obtain ⟨-, isWritten, -, breach⟩ := justified
  rw [Json.at?_append, isWritten]
  exact breach.exists_at?_toJson (Json.proper_of_at? isProper isWritten)

/-- The findings of a trace that begins at a place where validation can get to are
justified. -/
theorem justified_of_mem_traceFindings (schemaProper : root.toJson.proper = true)
    {allowance : Nat} {schema : Schema} {place : List String} {tag : Option String}
    (isPlaced : root.Placed place tag schema) (valueProper : value.proper = true)
    {finding : Finding}
    (isFinding : finding ∈ traceFindings root allowance schema value place tag) :
    Justified root value finding := by
  induction allowance, schema, value, place, tag using recursionInduction root
    generalizing finding with
  | step allowance schema value place tag inside behind =>
      rw [traceFindings_eq] at isFinding
      obtain ⟨task, isTask, isFinding⟩ := List.mem_flatMap.mp isFinding
      cases task with
      | reject suffix rejected =>
          cases List.mem_singleton.mp isFinding
          obtain ⟨rule, rfl, breach⟩ := breach_of_reject_mem_expand isTask
          have lies : value.at? [] = some value := rfl
          have justified := Justified.intro isPlaced (isPlaced.at?_toJson schemaProper) lies breach
          exact justified
      | visit inner innerValue suffix innerPlace innerTag =>
          rw [taskFindings_visit] at isFinding
          obtain ⟨finding, isInner, rfl⟩ := List.mem_map.mp isFinding
          obtain ⟨tokens, rfl, step, lies⟩ := child_of_visit_mem_expand isTask
          have justified := inside _ _ _ _ _ isTask (.child isPlaced step)
            (Json.proper_of_at? valueProper (lies valueProper)) isInner
          exact justified.under (lies valueProper)
      | follow name =>
          obtain none | ⟨target, less, defined, isLess, same⟩ :=
            taskFindings_follow_cases root allowance value name
          · rw [none] at isFinding
            cases isFinding
          · rw [same] at isFinding
            exact behind name target less (Shape.follow_mem_expand_iff.mp isTask) defined isLess
              (.definition defined) valueProper isFinding

end Justified

/-- Every finding of a validation that succeeds can be located and is justified.  Its pointers
lead to where its paths do, in the value and in the document of the schema, and there is a rule
at its place in the schema that what lies at its place in the value breaks. -/
theorem validate_findings_justified (options : Options) (schema : Schema) (value : Json)
    (schemaProper : schema.toJson.proper = true) (valueProper : value.proper = true)
    (findings : List Finding) (isOk : (validate options schema value).result = .ok findings) :
    ∀ finding ∈ findings,
      (∃ blamed, value.pointer? (Pointer.render finding.instancePath) = some blamed ∧
        value.at? finding.instancePath = some blamed) ∧
      (∃ rule, schema.toJson.pointer? (Pointer.render finding.schemaPath) = some rule ∧
        schema.toJson.at? finding.schemaPath = some rule) ∧
      Justified schema value finding := by
  intro finding isFinding
  have isTraced := (prefix_traceFindings_of_ok isOk).subset isFinding
  have justified := justified_of_mem_traceFindings schemaProper .root valueProper isTraced
  obtain ⟨blamed, lies⟩ := justified.exists_at?
  obtain ⟨rule, stands⟩ := justified.exists_at?_toJson schemaProper
  exact ⟨⟨blamed, (Json.pointer?_render ..).trans lies, lies⟩,
    ⟨rule, (Json.pointer?_render ..).trans stands, stands⟩, justified⟩

/-- A list of pages, which have a body with a name that pointers escape, or only a number. -/
def pageSchema : Schema where
  definitions := some [("pa/ge", { discriminator := some ⟨"kind", [
    ("text", { properties := some [("bo~dy", { type := some .string })] }),
    ("blank", { optionalProperties := some [("number", { type := some .uint8 })] })]⟩ })]
  elements := some { ref := some "pa/ge" }

/-- Three pages: a body that is no text, a kind that there is not, and a member too many. -/
def spoiledPages : Json :=
  .array [.object [("kind", .string "text"), ("bo~dy", .null)],
    .object [("kind", .string "cover")],
    .object [("kind", .string "blank"), ("title", .string "Part One")]]

/-- Each of the three pages is rejected once, and the pointers escape what they have to. -/
theorem validate_findings_justified_pages :
    pageSchema.toJson.proper = true ∧ spoiledPages.proper = true ∧
    (validate {} pageSchema spoiledPages).result = .ok
      [⟨["0", "bo~dy"], ["definitions", "pa/ge", "discriminator", "mapping", "text",
          "properties", "bo~dy", "type"]⟩,
        ⟨["1", "kind"], ["definitions", "pa/ge", "discriminator", "mapping"]⟩,
        ⟨["2", "title"], ["definitions", "pa/ge", "discriminator", "mapping", "blank"]⟩] ∧
    (∃ blamed, spoiledPages.pointer? "/0/bo~0dy" = some blamed) ∧
    (∃ rule, pageSchema.toJson.pointer? "/definitions/pa~1ge/discriminator/mapping" =
      some rule) ∧
    Justified pageSchema spoiledPages
      ⟨["2", "title"], ["definitions", "pa/ge", "discriminator", "mapping", "blank"]⟩ := by
  have result : (validate {} pageSchema spoiledPages).result = .ok
      [⟨["0", "bo~dy"], ["definitions", "pa/ge", "discriminator", "mapping", "text",
          "properties", "bo~dy", "type"]⟩,
        ⟨["1", "kind"], ["definitions", "pa/ge", "discriminator", "mapping"]⟩,
        ⟨["2", "title"], ["definitions", "pa/ge", "discriminator", "mapping", "blank"]⟩] :=
    rfl
  have schemaProper : pageSchema.toJson.proper = true := rfl
  have valueProper : spoiledPages.proper = true := rfl
  have justified := validate_findings_justified {} pageSchema spoiledPages schemaProper
    valueProper _ result
  obtain ⟨first, rest⟩ := List.forall_mem_cons.mp justified
  obtain ⟨second, rest⟩ := List.forall_mem_cons.mp rest
  obtain ⟨third, -⟩ := List.forall_mem_cons.mp rest
  obtain ⟨blamed, leads, -⟩ := first.1
  obtain ⟨rule, stands, -⟩ := second.2.1
  exact ⟨schemaProper, valueProper, result, ⟨blamed, leads⟩, ⟨rule, stands⟩, third.2.2⟩

end FormSchema
