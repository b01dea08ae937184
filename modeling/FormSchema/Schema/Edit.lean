import FormSchema.Schema.Decode

/-!
# Editing a schema

A schema can be put together one keyword at a time, also inside the schemas that it
contains.  Unlike reading, editing lets an enumeration be empty and drops values that
are repeated, so that schemas can be made which no document describes.
-/

namespace FormSchema

/-- A step from a schema to one inside it. -/
inductive SchemaStep where
  | elements
  | values
  | definition (name : String)
  | property (name : String)
  | optionalProperty (name : String)
  | branch (tagValue : String)
  deriving DecidableEq, Inhabited

namespace SchemaStep

/-- The steps that a list of tokens stands for: a keyword, followed by a name where the
keyword holds several schemas. -/
def ofTokens? : List String → Option (List SchemaStep)
  | [] => some []
  | [keyword] =>
      if keyword = "elements" then some [elements]
      else if keyword = "values" then some [values]
      else none
  | keyword :: name :: rest =>
      if keyword = "elements" then (ofTokens? (name :: rest)).map (elements :: ·)
      else if keyword = "values" then (ofTokens? (name :: rest)).map (values :: ·)
      else if keyword = "definitions" then (ofTokens? rest).map (definition name :: ·)
      else if keyword = "properties" then (ofTokens? rest).map (property name :: ·)
      else if keyword = "optionalProperties" then
        (ofTokens? rest).map (optionalProperty name :: ·)
      else if keyword = "mapping" then (ofTokens? rest).map (branch name :: ·)
      else none

end SchemaStep

/-- What an edit sets: one keyword, or the whole schema. -/
inductive EditTarget where
  | keyword (keyword : Keyword)
  | whole
  deriving DecidableEq, Inhabited

/-- The target with the given name; a star stands for the whole schema. -/
def EditTarget.ofName? (name : String) : Option EditTarget :=
  if name = "*" then some .whole else (Keyword.ofName? name).map .keyword

/-- Why an edit fails. -/
inductive EditError where
  | noSuchPlace
  | noSuchTarget
  | unreadable (error : DecodeError)
  deriving DecidableEq, Inhabited

namespace Schema

/-- The schema one step inside. -/
def inside? (schema : Schema) : SchemaStep → Option Schema
  | .elements => schema.elements
  | .values => schema.values
  | .definition name => schema.definition? name
  | .property name => schema.properties.bind fun fields => fields.lookup name
  | .optionalProperty name => schema.optionalProperties.bind fun fields => fields.lookup name
  | .branch tagValue => schema.discriminator.bind fun rule => rule.mapping.lookup tagValue

/-- Put another schema in the place of the one a step inside. -/
def replaceInside (schema inner : Schema) : SchemaStep → Schema
  | .elements => { schema with elements := some inner }
  | .values => { schema with values := some inner }
  | .definition name =>
      { schema with definitions := schema.definitions.map (Members.put name inner) }
  | .property name =>
      { schema with properties := schema.properties.map (Members.put name inner) }
  | .optionalProperty name =>
      { schema with optionalProperties := schema.optionalProperties.map (Members.put name inner) }
  | .branch tagValue =>
      { schema with
        discriminator := schema.discriminator.map fun rule =>
          { rule with mapping := Members.put tagValue inner rule.mapping } }

/-- Change the schema at a place. -/
def changeAt (change : Schema → Except EditError Schema) :
    List SchemaStep → Schema → Except EditError Schema
  | [], schema => change schema
  | step :: steps, schema =>
      match schema.inside? step with
      | none => .error .noSuchPlace
      | some inner => do
          let changed ← changeAt change steps inner
          return schema.replaceInside changed step

/-- The values of a list without those that occurred before. -/
def withoutRepetition (values : List String) : List String :=
  values.foldl (fun kept value => if value ∈ kept then kept else kept ++ [value]) []

/-- Read the value for a keyword. -/
def readSetting (keyword : Keyword) (value : Json) : Except DecodeError Setting :=
  match keyword with
  | .enum => do
      let values ← Decode.strings .set value
      return .enum (withoutRepetition values)
  | keyword => Decode.settingOf keyword value

/-- Set a target to a value that is still to be read, or clear it. -/
def assign (target : EditTarget) (value : Option Json) (schema : Schema) :
    Except EditError Schema :=
  match target, value with
  | .whole, none => .ok {}
  | .whole, some value => (Schema.ofJson value).mapError .unreadable
  | .keyword keyword, none => .ok (schema.unset keyword)
  | .keyword keyword, some value => do
      let setting ← (readSetting keyword value).mapError .unreadable
      return schema.set setting

/-- Set a target by name at the place that a list of tokens leads to. -/
def edit (place : List String) (name : String) (value : Option Json) (schema : Schema) :
    Except EditError Schema :=
  match SchemaStep.ofTokens? place with
  | none => .error .noSuchPlace
  | some steps =>
      schema.changeAt
        (fun inner =>
          match EditTarget.ofName? name with
          | none => .error .noSuchTarget
          | some target => inner.assign target value)
        steps

end Schema

end FormSchema
