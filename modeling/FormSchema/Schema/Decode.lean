import FormSchema.Decoding.Kinds
import FormSchema.Schema.Keyword

/-!
# Reading a schema from a value

Each keyword is checked for its own shape only; whether the keywords go together is
the matter of verification.  Members are read in order, the first fault wins, and
members with other names are ignored.
-/

namespace FormSchema

namespace Decode

/-- The first value that repeats an earlier one, the values in `seen` included. -/
def firstRepeated? (seen : List String) : List String → Option String
  | [] => none
  | value :: rest => if value ∈ seen then some value else firstRepeated? (value :: seen) rest

/-- The values of an enumeration: at least one, and no value twice. -/
def enumeration (values : List String) : Except DecodeError (List String) :=
  if values.isEmpty then
    .error (.here .emptyEnum)
  else
    match firstRepeated? [] values with
    | some value => .error (.here (.duplicateEnumValue value))
    | none => .ok values

/-- The primitive with the given name. -/
def primitiveNamed (name : String) : Except DecodeError Primitive :=
  match Primitive.ofName? name with
  | some primitive => .ok primitive
  | none => .error (.here (.unknownPrimitive name))

/-- A primitive: its name, or an object with that name as the only member and null as
its value. -/
def primitive : Json → Except DecodeError Primitive
  | .string name => primitiveNamed name
  | .object [(name, payload)] => do
      let primitive ← primitiveNamed name
      match payload with
      | .null => return primitive
      | other => under (.key name) (wrongKind other .unit)
  | .object _ => .error (.here .notSingleMember)
  | other => wrongKind other .stringOrMap

/-- A discriminator from its two members. -/
def discriminatorOf (tag : Option String) (mapping : Option (List (String × Schema))) :
    Except DecodeError (Discriminator Schema) :=
  match tag, mapping with
  | none, _ => .error (.here (.missingField "tag"))
  | some _, none => .error (.here (.missingField "mapping"))
  | some tag, some mapping => .ok ⟨tag, mapping⟩

mutual

/-- Add the members of a schema object to the keywords read so far. -/
def keywords (schema : Schema) : List (String × Json) → Except DecodeError Schema
  | [] => .ok schema
  | (name, value) :: rest =>
      match Keyword.ofName? name with
      | none => keywords schema rest
      | some keyword => do
          let setting ← under (.key name) (settingOf keyword value)
          keywords (schema.set setting) rest

/-- The value of a keyword. -/
def settingOf : Keyword → Json → Except DecodeError Setting
  | .definitions, .object members => .definitions <$> fields members
  | .properties, .object members => .properties <$> fields members
  | .optionalProperties, .object members => .optionalProperties <$> fields members
  | .elements, .object members => .elements <$> keywords {} members
  | .values, .object members => .values <$> keywords {} members
  | .discriminator, .object members => .discriminator <$> discriminatorMembers none none members
  | .ref, value => .ref <$> string value
  | .type, value => .type <$> primitive value
  | .additionalProperties, value => .additionalProperties <$> boolean value
  | .enum, value => do return .enum (← enumeration (← strings .sequence value))
  | .definitions, other => wrongKind other .map
  | .properties, other => wrongKind other .map
  | .optionalProperties, other => wrongKind other .map
  | .elements, other => wrongKind other .schemaObject
  | .values, other => wrongKind other .schemaObject
  | .discriminator, other => wrongKind other .discriminatorObject

/-- The schemas in the members of an object. -/
def fields : List (String × Json) → Except DecodeError (List (String × Schema))
  | [] => .ok []
  | (name, value) :: rest => do
      let schema ← under (.key name) <|
        match value with
        | .object members => keywords {} members
        | other => wrongKind other .schemaObject
      let others ← fields rest
      return (name, schema) :: others

/-- Add the members of a discriminator object to the two read so far. -/
def discriminatorMembers (tag : Option String) (mapping : Option (List (String × Schema))) :
    List (String × Json) → Except DecodeError (Discriminator Schema)
  | [] => discriminatorOf tag mapping
  | (name, value) :: rest =>
      if name = "tag" then do
        let read ← under (.key name) (string value)
        discriminatorMembers (some read) mapping rest
      else if name = "mapping" then do
        let read ← under (.key name) <|
          match value with
          | .object members => fields members
          | other => wrongKind other .map
        discriminatorMembers tag (some read) rest
      else
        discriminatorMembers tag mapping rest

end

/-- Named schemas. -/
def schemas : Json → Except DecodeError (List (String × Schema))
  | .object members => fields members
  | other => wrongKind other .map

end Decode

/-- The schema that a value describes. -/
def Schema.ofJson : Json → Except DecodeError Schema
  | .object members => Decode.keywords {} members
  | other => Decode.wrongKind other .schemaObject

end FormSchema
