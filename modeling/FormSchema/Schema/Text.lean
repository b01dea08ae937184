import FormSchema.Decoding.Skip
import FormSchema.Decoding.Value
import FormSchema.Schema.Decode

/-!
# Reading a schema from a JSON text

The text is read straight into a schema, without a value in between.  That makes two
differences.  A keyword that occurs twice in one object is a fault here, whereas a value
only ever holds the last occurrence; and values of unknown members are skipped, not read.
What follows the schema in the text is ignored.
-/

namespace FormSchema

namespace Reader

/-- The primitive with a name that has just been read. -/
def primitiveNamed (name : String) : Reader Primitive :=
  match Primitive.ofName? name with
  | some primitive => return primitive
  | none => failHere (.unknownPrimitive name)

/-- Read the name in front of the colon of an object that stands for a primitive. -/
def primitiveName : Reader String := do
  skipBlanks
  match ← peek with
  | none => failHere (.malformed .endInObject)
  | some '"' =>
      advance
      string
  | some '\x7d' => failAhead (.malformed .valueExpected)
  | some _ => failAhead (.malformed .keyNotString)

/-- Read a primitive: its name, or an object with that name as its only member and null
as the member's value. -/
def primitive (levels : Nat) : Reader Primitive := do
  skipBlanks
  match ← peek with
  | none => failHere (.malformed .endInValue)
  | some '"' =>
      advance
      primitiveNamed (← string)
  | some '\x7b' =>
      if levels = 0 then
        tooDeep
      else
        advance
        let name ← primitiveName
        let primitive ← primitiveNamed name
        colon
        under (.key name) (nullValue .unit)
        skipBlanks
        match ← peek with
        | none => failHere (.malformed .endInObject)
        | some '\x7d' =>
            advance
            return primitive
        | some _ => failHere (.malformed .valueExpected)
  | some _ => failAhead (.malformed .valueExpected)

/-- Set a keyword that must not have been set before. -/
def setOnce (schema : Schema) (keyword : Keyword) (setting : Setting) :
    Except DecodeError Schema :=
  if schema.has keyword then
    .error (.here (.duplicateField keyword.name))
  else
    .ok (schema.set setting)

/-- The two members of a discriminator object, as far as they have been read. -/
structure DiscriminatorMembers where
  tag : Option String := none
  mapping : Option (List (String × Schema)) := none

mutual

/-- Read a schema inside which at most the given number of containers may be open. -/
def schema : Nat → Reader Schema
  | 0 => objectOr .schemaObject tooDeep
  | levels + 1 =>
      objectOr .schemaObject <|
        object {}
          (fun gathered name =>
            match Keyword.ofName? name with
            | none => do
                skipValue
                return .ok gathered
            | some .definitions => do
                return setOnce gathered .definitions (.definitions (← schemas levels))
            | some .ref => do
                return setOnce gathered .ref (.ref (← stringValue .string))
            | some .type => do
                return setOnce gathered .type (.type (← primitive levels))
            | some .enum => do
                let values ← stringList levels .sequence
                return do
                  let checked ← Decode.under (.key name) (Decode.enumeration values)
                  setOnce gathered .enum (.enum checked)
            | some .elements => do
                return setOnce gathered .elements (.elements (← schema levels))
            | some .properties => do
                return setOnce gathered .properties (.properties (← schemas levels))
            | some .optionalProperties => do
                return setOnce gathered .optionalProperties
                  (.optionalProperties (← schemas levels))
            | some .additionalProperties => do
                return setOnce gathered .additionalProperties
                  (.additionalProperties (← booleanValue .boolean))
            | some .values => do
                return setOnce gathered .values (.values (← schema levels))
            | some .discriminator => do
                return setOnce gathered .discriminator
                  (.discriminator (← discriminator levels)))
          .ok

/-- Read named schemas.  A name that is repeated keeps its first place and takes its last
schema. -/
def schemas : Nat → Reader (List (String × Schema))
  | 0 => objectOr .map tooDeep
  | levels + 1 =>
      objectOr .map <|
        object []
          (fun gathered name => do return .ok (Members.put name (← schema levels) gathered))
          .ok

/-- Read a discriminator. -/
def discriminator : Nat → Reader (Discriminator Schema)
  | 0 => objectOr .discriminatorObject tooDeep
  | levels + 1 =>
      objectOr .discriminatorObject <|
        object ({} : DiscriminatorMembers)
          (fun gathered name =>
            if name = "tag" then do
              let tag ← stringValue .string
              if gathered.tag.isSome then
                return .error (.here (.duplicateField "tag"))
              else
                return .ok { gathered with tag := some tag }
            else if name = "mapping" then do
              let mapping ← schemas levels
              if gathered.mapping.isSome then
                return .error (.here (.duplicateField "mapping"))
              else
                return .ok { gathered with mapping := some mapping }
            else do
              skipValue
              return .ok gathered)
          fun gathered => Decode.discriminatorOf gathered.tag gathered.mapping

end

end Reader

/-- The schema at the beginning of a text, whatever follows it. -/
def Schema.readLeading (text : String) : Except DecodeError Schema :=
  ((Reader.schema Reader.nestingLimit).run text).map Prod.fst

end FormSchema
