import FormSchema.Schema.Basic

/-!
# Writing a schema as a value

Keywords appear in their own fixed order and only when they are set; named schemas and
enumerated values keep their order.
-/

namespace FormSchema.Schema

/-- A member for a keyword that is set. -/
def memberOf (name : String) (value : Option Json) : List (String × Json) :=
  match value with
  | some value => [(name, value)]
  | none => []

mutual

/-- The value that describes a schema. -/
def toJson : Schema → Json
  | ⟨definitions, ref, type, enum, elements, properties, optionalProperties,
      additionalProperties, values, discriminator⟩ =>
      .object <|
        memberOf "definitions" (match definitions with
          | some fields => some (.object (fieldsToJson fields))
          | none => none) ++
        memberOf "ref" (ref.map .string) ++
        memberOf "type" (type.map fun primitive => .string primitive.name) ++
        memberOf "enum" (enum.map .ofStrings) ++
        memberOf "elements" (match elements with
          | some item => some item.toJson
          | none => none) ++
        memberOf "properties" (match properties with
          | some fields => some (.object (fieldsToJson fields))
          | none => none) ++
        memberOf "optionalProperties" (match optionalProperties with
          | some fields => some (.object (fieldsToJson fields))
          | none => none) ++
        memberOf "additionalProperties" (additionalProperties.map .bool) ++
        memberOf "values" (match values with
          | some member => some member.toJson
          | none => none) ++
        memberOf "discriminator" (match discriminator with
          | some ⟨tag, mapping⟩ =>
              some (.object [("tag", .string tag), ("mapping", .object (fieldsToJson mapping))])
          | none => none)

/-- The members that describe named schemas. -/
def fieldsToJson : List (String × Schema) → List (String × Json)
  | [] => []
  | (name, schema) :: rest => (name, schema.toJson) :: fieldsToJson rest

end

end FormSchema.Schema
