import FormSchema.Schema.Basic

/-!
# Equality of schemas

Two schemas are equivalent when the same keywords are set to equal values, where the
order of named schemas and of enumerated values does not matter.  Every keyword
counts, also one that has no influence on the form.
-/

namespace FormSchema.Schema

/-- Are the enumerated values the same, in any order?  No value is meant to occur
twice on either side. -/
def sameValues (left right : List String) : Bool :=
  left.length = right.length && left.all fun value => right.contains value

/-- Are the enumerated values of two schemas the same, if either has any? -/
def sameEnum : Option (List String) → Option (List String) → Bool
  | some left, some right => sameValues left right
  | none, none => true
  | _, _ => false

mutual

/-- Are two schemas equal up to order? -/
def equivalent : Schema → Schema → Bool
  | ⟨definitions, ref, type, enum, elements, properties, optionalProperties,
      additionalProperties, values, discriminator⟩, other =>
      sameNamed definitions other.definitions &&
      ref = other.ref && type = other.type &&
      sameEnum enum other.enum &&
      sameSingle elements other.elements &&
      sameNamed properties other.properties &&
      sameNamed optionalProperties other.optionalProperties &&
      additionalProperties = other.additionalProperties &&
      sameSingle values other.values &&
      sameRule discriminator other.discriminator

/-- Are the schemas under a keyword equal up to order, if it is set on either side? -/
def sameSingle : Option Schema → Option Schema → Bool
  | some left, some right => left.equivalent right
  | none, none => true
  | _, _ => false

/-- Are the named schemas under a keyword the same, if it is set on either side? -/
def sameNamed : Option (List (String × Schema)) → Option (List (String × Schema)) → Bool
  | some left, some right => left.length = right.length && fieldsWithin left right
  | none, none => true
  | _, _ => false

/-- Are the rules of tagged unions the same, if there is one on either side? -/
def sameRule : Option (Discriminator Schema) → Option (Discriminator Schema) → Bool
  | some ⟨tag, mapping⟩, some right =>
      tag = right.tag && mapping.length = right.mapping.length &&
        fieldsWithin mapping right.mapping
  | none, none => true
  | _, _ => false

/-- Does each of the named schemas have an equivalent one of the same name among the
others? -/
def fieldsWithin : List (String × Schema) → List (String × Schema) → Bool
  | [], _ => true
  | (name, schema) :: rest, others =>
      (match others.lookup name with
        | some other => schema.equivalent other
        | none => false) && fieldsWithin rest others

end

end FormSchema.Schema
