import FormSchema.Schema.Basic

/-!
# Shapes and the schemas inside them

A shape knows which schemas stand directly inside a schema.  They are smaller than the
schema, which gives an induction over schemas that has one step and does not look at
keywords, and `Schema.fold` is one step on the shape whose inner schemas have been
combined.
-/

namespace FormSchema

namespace Shape

variable {α β : Type}

/-- Apply a function to each of the named entries. -/
def mapFields (function : α → β) (fields : List (String × α)) : List (String × β) :=
  fields.map fun field => (field.1, function field.2)

/-- Apply a function to everything inside a shape. -/
def map (function : α → β) : Shape α → Shape β
  | ref name => .ref name
  | type primitive => .type primitive
  | enum texts => .enum texts
  | elements item => .elements (function item)
  | properties required optional additional =>
      .properties (required.map (mapFields function)) (optional.map (mapFields function))
        additional
  | values member => .values (function member)
  | discriminator rule =>
      .discriminator ⟨rule.tag, mapFields function rule.mapping⟩
  | empty => .empty

/-- Apply a function to each of the named entries and its place behind the others'. -/
def mapFieldsAt (function : List String → α → β) (place : List String)
    (fields : List (String × α)) : List (String × β) :=
  fields.map fun field => (field.1, function (place ++ [field.1]) field.2)

/-- Apply a function to everything inside a shape that stands at a place, and to the places of
what is inside. -/
def mapAt (function : List String → α → β) (place : List String) : Shape α → Shape β
  | ref name => .ref name
  | type primitive => .type primitive
  | enum texts => .enum texts
  | elements item => .elements (function (place ++ ["elements"]) item)
  | properties required optional additional =>
      .properties (required.map (mapFieldsAt function (place ++ ["properties"])))
        (optional.map (mapFieldsAt function (place ++ ["optionalProperties"]))) additional
  | values member => .values (function (place ++ ["values"]) member)
  | discriminator rule =>
      .discriminator ⟨rule.tag,
        mapFieldsAt function (place ++ ["discriminator", "mapping"]) rule.mapping⟩
  | empty => .empty

/-- A function that does not look at places is applied everywhere in the same way. -/
theorem map_eq_mapAt (function : α → β) (place : List String) (shape : Shape α) :
    shape.map function = shape.mapAt (fun _ => function) place := by
  cases shape <;> rfl

/-- Everything inside a shape. -/
def inner : Shape α → List α
  | ref _ => []
  | type _ => []
  | enum _ => []
  | elements item => [item]
  | properties required optional _ =>
      (required.getD []).map Prod.snd ++ (optional.getD []).map Prod.snd
  | values member => [member]
  | discriminator rule => rule.mapping.map Prod.snd
  | empty => []

@[simp]
theorem lookup_mapFieldsAt (function : List String → α → β) (place : List String) (name : String)
    (fields : List (String × α)) :
    (mapFieldsAt function place fields).lookup name =
      (fields.lookup name).map (function (place ++ [name])) := by
  induction fields with
  | nil => rfl
  | cons field rest inductionHypothesis =>
      obtain ⟨other, entry⟩ := field
      simp only [mapFieldsAt] at inductionHypothesis
      simp only [mapFieldsAt, List.map_cons, List.lookup_cons]
      cases same : name == other with
      | true =>
          rw [beq_iff_eq.mp same]
          rfl
      | false => exact inductionHypothesis

@[simp]
theorem lookup_mapFields (function : α → β) (name : String) (fields : List (String × α)) :
    (mapFields function fields).lookup name = (fields.lookup name).map function :=
  lookup_mapFieldsAt (fun _ => function) [] name fields

@[simp]
theorem has_mapFieldsAt (function : List String → α → β) (place : List String) (name : String)
    (fields : List (String × α)) :
    Members.has name (mapFieldsAt function place fields) = Members.has name fields := by
  simp [Members.has]

end Shape

namespace Members

variable {α : Type}

theorem mem_of_lookup {name : String} {value : α} {members : List (String × α)}
    (found : members.lookup name = some value) : (name, value) ∈ members := by
  induction members with
  | nil => simp at found
  | cons entry rest inductionHypothesis =>
      obtain ⟨other, first⟩ := entry
      simp only [List.lookup_cons] at found
      split at found
      · rename_i same
        have sameName : name = other := by simpa using same
        have sameValue : first = value := Option.some.inj found
        subst sameName sameValue
        exact List.mem_cons_self
      · exact List.mem_cons_of_mem _ (inductionHypothesis found)

theorem has_iff_mem_names {name : String} {members : List (String × α)} :
    has name members = true ↔ name ∈ names members := by
  induction members with
  | nil => simp [has, names]
  | cons entry rest inductionHypothesis =>
      obtain ⟨other, first⟩ := entry
      simp only [has, names] at inductionHypothesis
      by_cases same : name = other
      · simp [has, names, same]
      · have differ : (name == other) = false := by simp [same]
        simp only [has, names, List.lookup_cons, differ, List.map_cons, List.mem_cons, same,
          false_or]
        exact inductionHypothesis

end Members

namespace Schema

/-- Combining named schemas combines each of them. -/
theorem foldFieldsWith_eq_mapFields {α : Type} (step : Schema → Shape α → α)
    (fields : List (String × Schema)) :
    foldFieldsWith step fields = Shape.mapFields (foldWith step) fields := by
  induction fields with
  | nil => rw [foldFieldsWith, Shape.mapFields, List.map_nil]
  | cons field rest inductionHypothesis =>
      rw [foldFieldsWith, inductionHypothesis]
      rfl

/-- Combining a schema is one step on the schema and its shape, with the schemas inside
combined. -/
theorem foldWith_eq {α : Type} (step : Schema → Shape α → α) (schema : Schema) :
    schema.foldWith step = step schema (schema.shape.map (foldWith step)) := by
  obtain ⟨_, ref, type, enum, elements, properties, optionalProperties, _, values,
    discriminator⟩ := schema
  cases ref with
  | some name => simp only [foldWith, shape, Shape.map]
  | none =>
    cases type with
    | some primitive => simp only [foldWith, shape, Shape.map]
    | none =>
      cases enum with
      | some values => simp only [foldWith, shape, Shape.map]
      | none =>
        cases elements with
        | some item => simp only [foldWith, shape, Shape.map]
        | none =>
          cases properties <;> cases optionalProperties <;> cases values <;>
            cases discriminator <;>
            simp only [foldWith, shape, Shape.map, foldFieldsWith_eq_mapFields, Option.map]

theorem fold_eq {α : Type} (step : Shape α → α) (schema : Schema) :
    schema.fold step = step (schema.shape.map (fold step)) :=
  foldWith_eq (fun _ => step) schema

/-! ## The keywords behind a shape -/

section Keywords

variable {schema : Schema}

theorem ref_of_shape {name : String} (shaped : schema.shape = .ref name) :
    schema.ref = some name := by
  unfold shape at shaped
  split at shaped <;> try cases shaped
  · assumption
  · split at shaped <;> cases shaped

theorem type_of_shape {primitive : Primitive} (shaped : schema.shape = .type primitive) :
    schema.type = some primitive := by
  unfold shape at shaped
  split at shaped <;> try cases shaped
  · assumption
  · split at shaped <;> cases shaped

theorem enum_of_shape {texts : List String} (shaped : schema.shape = .enum texts) :
    schema.enum = some texts := by
  unfold shape at shaped
  split at shaped <;> try cases shaped
  · assumption
  · split at shaped <;> cases shaped

theorem elements_of_shape {item : Schema} (shaped : schema.shape = .elements item) :
    schema.elements = some item := by
  unfold shape at shaped
  split at shaped <;> try cases shaped
  · assumption
  · split at shaped <;> cases shaped

theorem properties_of_shape {required optional : Option (List (String × Schema))}
    {additional : Bool} (shaped : schema.shape = .properties required optional additional) :
    schema.properties = required ∧ schema.optionalProperties = optional ∧
      schema.additionalProperties.getD false = additional := by
  unfold shape at shaped
  split at shaped <;> try cases shaped
  split at shaped <;> cases shaped
  exact ⟨rfl, rfl, rfl⟩

/-- A properties form without required properties has optional ones. -/
theorem optional_of_shape {optional : Option (List (String × Schema))} {additional : Bool}
    (shaped : schema.shape = .properties none optional additional) :
    ∃ fields, optional = some fields := by
  obtain ⟨required, rfl, -⟩ := properties_of_shape shaped
  cases isSet : schema.optionalProperties with
  | some fields => exact ⟨fields, rfl⟩
  | none =>
      simp only [shape, required, isSet] at shaped
      split at shaped <;> try cases shaped
      cases values : schema.values <;> cases rule : schema.discriminator <;>
        simp [values, rule] at shaped

theorem values_of_shape {member : Schema} (shaped : schema.shape = .values member) :
    schema.values = some member := by
  unfold shape at shaped
  split at shaped <;> try cases shaped
  split at shaped <;> cases shaped
  assumption

theorem discriminator_of_shape {rule : Discriminator Schema}
    (shaped : schema.shape = .discriminator rule) : schema.discriminator = some rule := by
  unfold shape at shaped
  split at shaped <;> try cases shaped
  split at shaped <;> cases shaped
  assumption

end Keywords

/-! ## Induction over schemas -/

/-- A schema among named ones is smaller than all of them together. -/
theorem sizeOf_lt_of_mem_fields {inner : Schema} {fields : List (String × Schema)}
    (isField : inner ∈ fields.map Prod.snd) : sizeOf inner < sizeOf fields := by
  obtain ⟨⟨name, schema⟩, isMember, rfl⟩ := List.mem_map.mp isField
  have smaller := List.sizeOf_lt_of_mem isMember
  rw [Prod.mk.sizeOf_spec] at smaller
  simp only
  omega

/-- A schema inside another is smaller. -/
theorem sizeOf_lt_of_mem_inner {schema inner : Schema} (isInner : inner ∈ schema.shape.inner) :
    sizeOf inner < sizeOf schema := by
  obtain ⟨definitions, ref, type, enum, elements, properties, optionalProperties,
    additionalProperties, values, discriminator⟩ := schema
  rw [Schema.mk.sizeOf_spec]
  cases shaped : Schema.shape ⟨definitions, ref, type, enum, elements, properties,
    optionalProperties, additionalProperties, values, discriminator⟩ with
  | ref name => simp [shaped, Shape.inner] at isInner
  | type primitive => simp [shaped, Shape.inner] at isInner
  | enum values => simp [shaped, Shape.inner] at isInner
  | empty => simp [shaped, Shape.inner] at isInner
  | elements item =>
      obtain rfl : elements = some item := elements_of_shape shaped
      have same : inner = item := by simpa [shaped, Shape.inner] using isInner
      rw [same, Option.some.sizeOf_spec]
      omega
  | values member =>
      obtain rfl : values = some member := values_of_shape shaped
      have same : inner = member := by simpa [shaped, Shape.inner] using isInner
      rw [same, Option.some.sizeOf_spec]
      omega
  | discriminator rule =>
      obtain rfl : discriminator = some rule := discriminator_of_shape shaped
      rw [shaped] at isInner
      have smaller := sizeOf_lt_of_mem_fields isInner
      rw [Option.some.sizeOf_spec, Discriminator.mk.sizeOf_spec]
      omega
  | properties required optional additional =>
      obtain ⟨rfl, rfl, -⟩ : properties = required ∧ optionalProperties = optional ∧ _ :=
        properties_of_shape shaped
      rw [shaped, Shape.inner, List.mem_append] at isInner
      obtain isRequired | isOptional := isInner
      · cases properties with
        | none => simp at isRequired
        | some fields =>
            have smaller := sizeOf_lt_of_mem_fields isRequired
            rw [Option.getD_some] at smaller
            rw [Option.some.sizeOf_spec]
            omega
      · cases optionalProperties with
        | none => simp at isOptional
        | some fields =>
            have smaller := sizeOf_lt_of_mem_fields isOptional
            rw [Option.getD_some] at smaller
            rw [Option.some.sizeOf_spec]
            omega

/-- What holds of a schema once it holds of the schemas inside it holds of every
schema. -/
theorem shapeInduction {motive : Schema → Prop}
    (step : ∀ schema : Schema, (∀ inner ∈ schema.shape.inner, motive inner) → motive schema)
    (schema : Schema) : motive schema :=
  step schema fun inner _ => shapeInduction step inner
termination_by sizeOf schema
decreasing_by exact sizeOf_lt_of_mem_inner ‹_›

end Schema

end FormSchema
