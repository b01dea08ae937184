import FormSchema.Primitive

/-!
# Schemas

A schema describes JSON values.  In a document it is an object with up to ten
keywords, and `Schema` is deliberately as loose as that: every keyword may be set or
not, in any combination.

A schema that makes sense has one of eight forms, which `Schema.shape` tells apart.
When keywords of several forms are set, the earliest form in the order of `Form`
counts.  Functions that only depend on the shape are written as one step on
`Shape` and taken through the whole schema by `Schema.fold`.
-/

namespace FormSchema

/-- The rule of a tagged union: the member `tag` of a value names the branch that the
value belongs to. -/
structure Discriminator (α : Type) where
  tag : String
  mapping : List (String × α)
  deriving Inhabited

/-- A schema as its keywords, none of which need be set.  Only the definitions of the
outermost schema count. -/
structure Schema where
  definitions : Option (List (String × Schema)) := none
  ref : Option String := none
  type : Option Primitive := none
  enum : Option (List String) := none
  elements : Option Schema := none
  properties : Option (List (String × Schema)) := none
  optionalProperties : Option (List (String × Schema)) := none
  additionalProperties : Option Bool := none
  values : Option Schema := none
  discriminator : Option (Discriminator Schema) := none
  deriving Inhabited

/-- The forms of a schema, in the order in which they take precedence. -/
inductive Form where
  | ref
  | type
  | enum
  | elements
  | properties
  | values
  | discriminator
  | empty
  deriving DecidableEq, Inhabited

/-- The name of a form. -/
def Form.name : Form → String
  | ref => "ref"
  | type => "type"
  | enum => "enum"
  | elements => "elements"
  | properties => "properties"
  | values => "values"
  | discriminator => "discriminator"
  | empty => "empty"

/-- What a schema requires by itself, where `α` stands for the schemas inside it. -/
inductive Shape (α : Type) where
  | ref (name : String)
  | type (primitive : Primitive)
  | enum (values : List String)
  | elements (item : α)
  | properties (required optional : Option (List (String × α))) (additional : Bool)
  | values (member : α)
  | discriminator (rule : Discriminator α)
  | empty
  deriving Inhabited

namespace Shape

/-- The form of a shape. -/
def form {α : Type} : Shape α → Form
  | ref _ => .ref
  | type _ => .type
  | enum _ => .enum
  | elements _ => .elements
  | properties _ _ _ => .properties
  | values _ => .values
  | discriminator _ => .discriminator
  | empty => .empty

end Shape

namespace Schema

/-- The shape of a schema.  Members other than the declared ones are refused unless
`additionalProperties` allows them. -/
def shape (schema : Schema) : Shape Schema :=
  match schema.ref, schema.type, schema.enum, schema.elements with
  | some name, _, _, _ => .ref name
  | none, some primitive, _, _ => .type primitive
  | none, none, some values, _ => .enum values
  | none, none, none, some item => .elements item
  | none, none, none, none =>
      match schema.properties, schema.optionalProperties, schema.values, schema.discriminator with
      | none, none, some member, _ => .values member
      | none, none, none, some rule => .discriminator rule
      | none, none, none, none => .empty
      | required, optional, _, _ =>
          .properties required optional (schema.additionalProperties.getD false)

/-- The form of a schema. -/
def form (schema : Schema) : Form :=
  schema.shape.form

/-- The definition with the given name. -/
def definition? (schema : Schema) (name : String) : Option Schema :=
  schema.definitions.bind fun definitions => definitions.lookup name

mutual

/-- Combine a schema from the inside out: `step` turns a schema and its shape, whose inner
schemas have been combined, into a result.  Definitions are not visited. -/
def foldWith {α : Type} (step : Schema → Shape α → α) : Schema → α
  | schema@⟨_, some name, _, _, _, _, _, _, _, _⟩ => step schema (.ref name)
  | schema@⟨_, none, some primitive, _, _, _, _, _, _, _⟩ => step schema (.type primitive)
  | schema@⟨_, none, none, some values, _, _, _, _, _, _⟩ => step schema (.enum values)
  | schema@⟨_, none, none, none, some item, _, _, _, _, _⟩ =>
      step schema (.elements (item.foldWith step))
  | schema@⟨_, none, none, none, none, some required, some optional, additional, _, _⟩ =>
      step schema (.properties (some (foldFieldsWith step required))
        (some (foldFieldsWith step optional)) (additional.getD false))
  | schema@⟨_, none, none, none, none, some required, none, additional, _, _⟩ =>
      step schema (.properties (some (foldFieldsWith step required)) none
        (additional.getD false))
  | schema@⟨_, none, none, none, none, none, some optional, additional, _, _⟩ =>
      step schema (.properties none (some (foldFieldsWith step optional))
        (additional.getD false))
  | schema@⟨_, none, none, none, none, none, none, _, some member, _⟩ =>
      step schema (.values (member.foldWith step))
  | schema@⟨_, none, none, none, none, none, none, _, none, some ⟨tag, mapping⟩⟩ =>
      step schema (.discriminator ⟨tag, foldFieldsWith step mapping⟩)
  | schema@⟨_, none, none, none, none, none, none, _, none, none⟩ => step schema .empty

/-- Combine each of the named schemas. -/
def foldFieldsWith {α : Type} (step : Schema → Shape α → α) :
    List (String × Schema) → List (String × α)
  | [] => []
  | (name, schema) :: rest => (name, schema.foldWith step) :: foldFieldsWith step rest

end

/-- Combine a schema from the inside out, by its shapes alone. -/
def fold {α : Type} (step : Shape α → α) : Schema → α :=
  foldWith fun _ => step

end Schema

end FormSchema
