import FormSchema.Proofs.Schema.Shape

/-!
# The schemas of a tree

`Child` is one step from a schema to a schema directly inside it, through any keyword that
holds schemas, whether or not the shape of the schema counts it.  `Contains` goes on like
this to any depth, and passes through definitions as well, wherever they are.

Both relations give the place of the inner schema: the tokens that lead to it in the document
of the outer one.  `Placed` gives the places that validation can get to: those of the tree of
the outermost schema, and those of the trees of its definitions.
-/

namespace FormSchema.Schema

/-- One schema stands directly inside another, at the given place.  A branch of a
discriminator is chosen by the discriminator's tag, and every other schema by none. -/
inductive Child : Schema → List String → Option String → Schema → Prop where
  | elements {schema inner : Schema} (isSet : schema.elements = some inner) :
      Child schema ["elements"] none inner
  | required {schema inner : Schema} {fields : List (String × Schema)} {name : String}
      (isSet : schema.properties = some fields) (isField : (name, inner) ∈ fields) :
      Child schema ["properties", name] none inner
  | optional {schema inner : Schema} {fields : List (String × Schema)} {name : String}
      (isSet : schema.optionalProperties = some fields) (isField : (name, inner) ∈ fields) :
      Child schema ["optionalProperties", name] none inner
  | values {schema inner : Schema} (isSet : schema.values = some inner) :
      Child schema ["values"] none inner
  | branch {schema inner : Schema} {rule : Discriminator Schema} {tagValue : String}
      (isSet : schema.discriminator = some rule) (isBranch : (tagValue, inner) ∈ rule.mapping) :
      Child schema ["discriminator", "mapping", tagValue] (some rule.tag) inner

/-- A schema is in the tree of another, definitions included, at the given place. -/
inductive Contains : Schema → List String → Schema → Prop where
  | self {schema : Schema} : Contains schema [] schema
  | child {schema inner node : Schema} {tokens place : List String} {tag : Option String}
      (step : Child schema tokens tag inner) (below : Contains inner place node) :
      Contains schema (tokens ++ place) node
  | definition {schema inner node : Schema} {fields : List (String × Schema)} {name : String}
      {place : List String} (isSet : schema.definitions = some fields)
      (isField : (name, inner) ∈ fields) (below : Contains inner place node) :
      Contains schema ("definitions" :: name :: place) node

/-- A schema stands at a place in the tree of the outermost schema or of one of its
definitions, chosen by a tag if it is a branch. -/
inductive Placed (root : Schema) : List String → Option String → Schema → Prop where
  | root : Placed root [] none root
  | definition {name : String} {target : Schema} (defined : root.definition? name = some target) :
      Placed root ["definitions", name] none target
  | child {schema inner : Schema} {place tokens : List String} {tag innerTag : Option String}
      (outer : Placed root place tag schema) (step : Child schema tokens innerTag inner) :
      Placed root (place ++ tokens) innerTag inner

theorem Child.isEmpty_append {schema inner : Schema} {tokens : List String}
    {tag : Option String} (step : Child schema tokens tag inner) (place : List String) :
    (tokens ++ place).isEmpty = false := by
  cases step <;> rfl

/-- What some schema directly inside has, a schema under one of the keywords has. -/
theorem exists_child_iff {schema : Schema} {property : Schema → Prop} :
    (∃ tokens tag inner, Child schema tokens tag inner ∧ property inner) ↔
      (∃ inner, schema.elements = some inner ∧ property inner) ∨
      (∃ fields name inner, schema.properties = some fields ∧ (name, inner) ∈ fields ∧
        property inner) ∨
      (∃ fields name inner, schema.optionalProperties = some fields ∧ (name, inner) ∈ fields ∧
        property inner) ∨
      (∃ inner, schema.values = some inner ∧ property inner) ∨
      (∃ rule tagValue inner, schema.discriminator = some rule ∧
        (tagValue, inner) ∈ rule.mapping ∧ property inner) := by
  constructor
  · rintro ⟨tokens, tag, inner, step, holds⟩
    cases step with
    | elements isSet => exact .inl ⟨inner, isSet, holds⟩
    | required isSet isField => exact .inr (.inl ⟨_, _, inner, isSet, isField, holds⟩)
    | optional isSet isField => exact .inr (.inr (.inl ⟨_, _, inner, isSet, isField, holds⟩))
    | values isSet => exact .inr (.inr (.inr (.inl ⟨inner, isSet, holds⟩)))
    | branch isSet isBranch =>
        exact .inr (.inr (.inr (.inr ⟨_, _, inner, isSet, isBranch, holds⟩)))
  · rintro (⟨inner, isSet, holds⟩ | ⟨_, _, inner, isSet, isField, holds⟩ |
      ⟨_, _, inner, isSet, isField, holds⟩ | ⟨inner, isSet, holds⟩ |
      ⟨_, _, inner, isSet, isBranch, holds⟩)
    · exact ⟨_, _, inner, .elements isSet, holds⟩
    · exact ⟨_, _, inner, .required isSet isField, holds⟩
    · exact ⟨_, _, inner, .optional isSet isField, holds⟩
    · exact ⟨_, _, inner, .values isSet, holds⟩
    · exact ⟨_, _, inner, .branch isSet isBranch, holds⟩

theorem Child.contains {schema inner : Schema} {tokens : List String} {tag : Option String}
    (step : Child schema tokens tag inner) : Contains schema tokens inner := by
  have below := Contains.child step .self
  rwa [List.append_nil] at below

theorem Contains.trans {outer schema inner : Schema} {place tokens : List String}
    (contains : Contains outer place schema) (below : Contains schema tokens inner) :
    Contains outer (place ++ tokens) inner := by
  induction contains with
  | self => exact below
  | child step _ inductionHypothesis =>
      rw [List.append_assoc]
      exact .child step (inductionHypothesis below)
  | definition isSet isField _ inductionHypothesis =>
      exact .definition isSet isField (inductionHypothesis below)

/-- Where validation can get to is in the tree. -/
theorem Placed.contains {root schema : Schema} {place : List String} {tag : Option String}
    (isPlaced : Placed root place tag schema) : Contains root place schema := by
  induction isPlaced with
  | root => exact .self
  | definition defined =>
      obtain ⟨fields, isSet, isField⟩ := Option.bind_eq_some_iff.mp defined
      exact .definition isSet (Members.mem_of_lookup isField) .self
  | child _ step inductionHypothesis =>
      exact inductionHypothesis.trans step.contains

theorem sizeOf_lt_of_mem {name : String} {inner : Schema} {fields : List (String × Schema)}
    (isField : (name, inner) ∈ fields) : sizeOf inner < sizeOf fields :=
  sizeOf_lt_of_mem_fields (List.mem_map_of_mem (f := Prod.snd) isField)

/-- A definition of a schema is smaller than the schema. -/
theorem sizeOf_lt_of_definition {schema inner : Schema} {fields : List (String × Schema)}
    {name : String} (isSet : schema.definitions = some fields)
    (isField : (name, inner) ∈ fields) : sizeOf inner < sizeOf schema := by
  have smaller := sizeOf_lt_of_mem isField
  cases schema
  cases isSet
  simp only [mk.sizeOf_spec, Option.some.sizeOf_spec]
  omega

/-- A schema directly inside another is smaller. -/
theorem Child.sizeOf_lt {schema inner : Schema} {tokens : List String} {tag : Option String}
    (step : Child schema tokens tag inner) : sizeOf inner < sizeOf schema := by
  cases schema
  cases step with
  | elements isSet =>
      cases isSet
      simp only [mk.sizeOf_spec, Option.some.sizeOf_spec]
      omega
  | values isSet =>
      cases isSet
      simp only [mk.sizeOf_spec, Option.some.sizeOf_spec]
      omega
  | required isSet isField =>
      have smaller := sizeOf_lt_of_mem isField
      cases isSet
      simp only [mk.sizeOf_spec, Option.some.sizeOf_spec]
      omega
  | optional isSet isField =>
      have smaller := sizeOf_lt_of_mem isField
      cases isSet
      simp only [mk.sizeOf_spec, Option.some.sizeOf_spec]
      omega
  | @branch _ rule _ isSet isBranch =>
      have smaller := sizeOf_lt_of_mem isBranch
      obtain ⟨tag, mapping⟩ := rule
      cases isSet
      simp only [mk.sizeOf_spec, Option.some.sizeOf_spec, Discriminator.mk.sizeOf_spec]
      simp only at smaller
      omega

/-- What holds of a schema once it holds of the schemas and definitions directly inside holds
of every schema. -/
theorem treeInduction {motive : Schema → Prop}
    (step : ∀ schema : Schema,
      (∀ tokens tag inner, Child schema tokens tag inner → motive inner) →
      (∀ fields name inner, schema.definitions = some fields → (name, inner) ∈ fields →
        motive inner) →
      motive schema)
    (schema : Schema) : motive schema :=
  step schema (fun _ _ inner _ => treeInduction step inner)
    fun _ _ inner _ _ => treeInduction step inner
termination_by sizeOf schema
decreasing_by
  · exact Child.sizeOf_lt ‹_›
  · exact sizeOf_lt_of_definition ‹_› ‹_›

end FormSchema.Schema
