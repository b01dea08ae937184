import FormSchema.Schema.Encode
import FormSchema.Schema.Keyword
import FormSchema.Proofs.Json.Pointer
import FormSchema.Proofs.Json.Proper
import FormSchema.Proofs.Schema.Tree

/-!
# The document of a schema

The document of a schema has one member for each keyword that is set.  A schema directly
inside another is written at the place that `Child` gives it, so the places in the tree of a
schema are places in its document, and lead there to the documents of the schemas inside.

Schemas keep named schemas in lists, where a repeated name would hide the second schema.
That no name is repeated is what it means for the document to be proper.
-/

namespace FormSchema.Schema

/-! ## Keywords -/

/-- The value that is written for a keyword. -/
def written (schema : Schema) : Keyword → Option Json
  | .definitions => schema.definitions.map fun fields => .object (fieldsToJson fields)
  | .ref => schema.ref.map .string
  | .type => schema.type.map fun primitive => .string primitive.name
  | .enum => schema.enum.map .ofStrings
  | .elements => schema.elements.map toJson
  | .properties => schema.properties.map fun fields => .object (fieldsToJson fields)
  | .optionalProperties =>
      schema.optionalProperties.map fun fields => .object (fieldsToJson fields)
  | .additionalProperties => schema.additionalProperties.map .bool
  | .values => schema.values.map toJson
  | .discriminator => schema.discriminator.map fun rule =>
      .object [("tag", .string rule.tag), ("mapping", .object (fieldsToJson rule.mapping))]

/-- A document has a member for each keyword that is set, in their fixed order. -/
theorem toJson_eq (schema : Schema) :
    schema.toJson =
      .object (Keyword.all.flatMap fun keyword =>
        memberOf keyword.name (schema.written keyword)) := by
  obtain ⟨definitions, ref, type, enum, elements, properties, optionalProperties,
    additionalProperties, values, discriminator⟩ := schema
  simp only [Keyword.all, List.flatMap_cons, List.flatMap_nil, List.append_nil,
    ← List.append_assoc, Keyword.name, written]
  cases definitions <;> cases elements <;> cases properties <;> cases optionalProperties <;>
    cases values <;> cases discriminator <;> rfl

theorem lookup_memberOf_append (name : String) (value : Option Json)
    (others : List (String × Json)) (searched : String) :
    (memberOf name value ++ others).lookup searched =
      if searched = name then value.or (others.lookup searched) else others.lookup searched := by
  cases value with
  | none => simp [memberOf]
  | some value =>
      by_cases same : searched = name
      · simp [memberOf, same]
      · have differ : (searched == name) = false := by simp [same]
        simp [memberOf, List.lookup_cons, differ, same]

/-- Under the name of a keyword stands what is written for it. -/
theorem step?_toJson (schema : Schema) (keyword : Keyword) :
    schema.toJson.step? keyword.name = schema.written keyword := by
  rw [toJson_eq, Json.step?]
  simp only [Keyword.all, List.flatMap_cons, List.flatMap_nil, lookup_memberOf_append]
  cases keyword <;> simp [Keyword.name]

theorem at?_of_written (schema : Schema) (keyword : Keyword) {content : Json}
    (isWritten : schema.written keyword = some content) :
    schema.toJson.at? [keyword.name] = some content := by
  rw [Json.at?_singleton, step?_toJson, isWritten]

/-- The two parts of the rule of a tagged union are written inside it. -/
theorem at?_discriminator {schema : Schema} {rule : Discriminator Schema}
    (isSet : schema.discriminator = some rule) (part : String) :
    schema.toJson.at? ["discriminator", part] =
      [("tag", .string rule.tag),
        ("mapping", .object (fieldsToJson rule.mapping))].lookup part := by
  have isWritten := at?_of_written schema .discriminator
    (by rw [written, isSet, Option.map_some])
  have split : ["discriminator", part] = [Keyword.discriminator.name] ++ [part] := rfl
  rw [split, Json.at?_append, isWritten, Option.bind_some, Json.at?_singleton, Json.step?]

/-! ## Schemas inside -/

/-- The members for named schemas are the documents of the schemas. -/
theorem fieldsToJson_eq_mapFields (fields : List (String × Schema)) :
    fieldsToJson fields = Shape.mapFields toJson fields := by
  induction fields with
  | nil => rfl
  | cons field rest inductionHypothesis =>
      rw [fieldsToJson, inductionHypothesis]
      rfl

theorem names_fieldsToJson (fields : List (String × Schema)) :
    Members.names (fieldsToJson fields) = Members.names fields := by
  rw [fieldsToJson_eq_mapFields, Members.names, Shape.mapFields, List.map_map]
  rfl

section Proper

variable {schema inner : Schema}

/-- Named schemas have different names if they are written in a proper document. -/
theorem distinct_of_at? (isProper : schema.toJson.proper = true) {tokens : List String}
    {fields : List (String × Schema)}
    (isWritten : schema.toJson.at? tokens = some (.object (fieldsToJson fields))) :
    (Members.names fields).Nodup := by
  have distinct := (Json.proper_object_iff.mp (Json.proper_of_at? isProper isWritten)).1
  rwa [names_fieldsToJson] at distinct

/-- The named schemas of a keyword have different names. -/
theorem distinct_of_written (isProper : schema.toJson.proper = true) (keyword : Keyword)
    {named : Option (List (String × Schema))}
    (isWritten : schema.written keyword = named.map fun fields => .object (fieldsToJson fields)) :
    (Members.names (named.getD [])).Nodup := by
  cases named with
  | none => exact List.nodup_nil
  | some fields => exact distinct_of_at? isProper (schema.at?_of_written keyword isWritten)

/-- Where named schemas are written, each of them is written under its name. -/
theorem at?_append_name (isProper : schema.toJson.proper = true) {tokens : List String}
    {fields : List (String × Schema)}
    (isWritten : schema.toJson.at? tokens = some (.object (fieldsToJson fields)))
    {name : String} (isField : (name, inner) ∈ fields) :
    schema.toJson.at? (tokens ++ [name]) = some inner.toJson := by
  have found := Members.lookup_of_mem (distinct_of_at? isProper isWritten) isField
  rw [Json.at?_append, isWritten, Option.bind_some, Json.at?_singleton, Json.step?,
    fieldsToJson_eq_mapFields, Shape.lookup_mapFields, found, Option.map_some]

/-- A schema directly inside another is written at its place. -/
theorem Child.at?_toJson {tokens : List String} {tag : Option String}
    (step : Child schema tokens tag inner) (isProper : schema.toJson.proper = true) :
    schema.toJson.at? tokens = some inner.toJson := by
  cases step with
  | elements isSet =>
      exact at?_of_written schema .elements (by rw [written, isSet, Option.map_some])
  | values isSet => exact at?_of_written schema .values (by rw [written, isSet, Option.map_some])
  | required isSet isField =>
      have isWritten := at?_of_written schema .properties
        (by rw [written, isSet, Option.map_some])
      exact at?_append_name isProper isWritten isField
  | optional isSet isField =>
      have isWritten := at?_of_written schema .optionalProperties
        (by rw [written, isSet, Option.map_some])
      exact at?_append_name isProper isWritten isField
  | branch isSet isBranch =>
      exact at?_append_name isProper (at?_discriminator isSet "mapping") isBranch

theorem at?_definition {name : String} (isProper : schema.toJson.proper = true)
    (defined : schema.definition? name = some inner) :
    schema.toJson.at? ["definitions", name] = some inner.toJson := by
  obtain ⟨fields, isSet, isField⟩ := Option.bind_eq_some_iff.mp defined
  have isWritten := at?_of_written schema .definitions
    (by rw [written, isSet, Option.map_some])
  exact at?_append_name isProper isWritten (Members.mem_of_lookup isField)

/-- Every schema that validation can get to is written at its place. -/
theorem Placed.at?_toJson {root : Schema} {place : List String} {tag : Option String}
    (isPlaced : Placed root place tag schema) (isProper : root.toJson.proper = true) :
    root.toJson.at? place = some schema.toJson := by
  induction isPlaced with
  | root => rfl
  | definition defined => exact at?_definition isProper defined
  | child _ step inductionHypothesis =>
      have outerProper := Json.proper_of_at? isProper inductionHypothesis
      rw [Json.at?_append, inductionHypothesis, Option.bind_some, step.at?_toJson outerProper]

end Proper

end FormSchema.Schema
