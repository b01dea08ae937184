import FormSchema.Schema.Basic

/-!
# Schema keywords

The ten keywords by name, and what it is to set one.  A `Setting` is a keyword
together with a value of the kind that the keyword takes.
-/

namespace FormSchema

/-- A keyword of a schema object, in the order in which keywords are written. -/
inductive Keyword where
  | definitions
  | ref
  | type
  | enum
  | elements
  | properties
  | optionalProperties
  | additionalProperties
  | values
  | discriminator
  deriving DecidableEq, Inhabited

namespace Keyword

/-- All keywords, in the order in which they are written. -/
def all : List Keyword :=
  [definitions, ref, type, enum, elements, properties, optionalProperties,
    additionalProperties, values, discriminator]

/-- The member name of a keyword. -/
def name : Keyword → String
  | definitions => "definitions"
  | ref => "ref"
  | type => "type"
  | enum => "enum"
  | elements => "elements"
  | properties => "properties"
  | optionalProperties => "optionalProperties"
  | additionalProperties => "additionalProperties"
  | values => "values"
  | discriminator => "discriminator"

/-- The keyword with the given member name. -/
def ofName? (text : String) : Option Keyword :=
  all.find? fun keyword => keyword.name = text

end Keyword

/-- A keyword with a value for it. -/
inductive Setting where
  | definitions (fields : List (String × Schema))
  | ref (name : String)
  | type (primitive : Primitive)
  | enum (values : List String)
  | elements (item : Schema)
  | properties (fields : List (String × Schema))
  | optionalProperties (fields : List (String × Schema))
  | additionalProperties (allowed : Bool)
  | values (member : Schema)
  | discriminator (rule : Discriminator Schema)
  deriving Inhabited

namespace Schema

/-- Give a keyword a value. -/
def set (schema : Schema) : Setting → Schema
  | .definitions fields => { schema with definitions := some fields }
  | .ref name => { schema with ref := some name }
  | .type primitive => { schema with type := some primitive }
  | .enum values => { schema with enum := some values }
  | .elements item => { schema with elements := some item }
  | .properties fields => { schema with properties := some fields }
  | .optionalProperties fields => { schema with optionalProperties := some fields }
  | .additionalProperties allowed => { schema with additionalProperties := some allowed }
  | .values member => { schema with values := some member }
  | .discriminator rule => { schema with discriminator := some rule }

/-- Take the value of a keyword away. -/
def unset (schema : Schema) : Keyword → Schema
  | .definitions => { schema with definitions := none }
  | .ref => { schema with ref := none }
  | .type => { schema with type := none }
  | .enum => { schema with enum := none }
  | .elements => { schema with elements := none }
  | .properties => { schema with properties := none }
  | .optionalProperties => { schema with optionalProperties := none }
  | .additionalProperties => { schema with additionalProperties := none }
  | .values => { schema with values := none }
  | .discriminator => { schema with discriminator := none }

/-- Does the keyword have a value? -/
def has (schema : Schema) : Keyword → Bool
  | .definitions => schema.definitions.isSome
  | .ref => schema.ref.isSome
  | .type => schema.type.isSome
  | .enum => schema.enum.isSome
  | .elements => schema.elements.isSome
  | .properties => schema.properties.isSome
  | .optionalProperties => schema.optionalProperties.isSome
  | .additionalProperties => schema.additionalProperties.isSome
  | .values => schema.values.isSome
  | .discriminator => schema.discriminator.isSome

end Schema

end FormSchema
