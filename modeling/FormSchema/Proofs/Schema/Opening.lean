import FormSchema.Proofs.Schema.Violations

/-!
# Opening a schema

A schema of the properties form refuses members that it does not declare, unless
`additionalProperties` allows them.  `opened` allows them at chosen places, anywhere in the tree of
a schema, definitions included, and changes nothing else.  The shape of each schema stays the same
up to that, and so do the violations of the whole tree, which do not look at the keyword.
-/

namespace FormSchema

/-- The same shape, with other members allowed if so decided, or as before. -/
def Shape.allowing {α : Type} (allowed : Bool) : Shape α → Shape α
  | .properties required optional additional =>
      .properties required optional (additional || allowed)
  | shape => shape

namespace Schema

mutual

/-- Allow other members in the schemas of the properties form at the chosen places. -/
def openedAt (chosen : List String → Bool) (place : List String) : Schema → Schema
  | schema@⟨definitions, ref, type, enum, elements, properties, optionalProperties,
      additionalProperties, values, discriminator⟩ =>
      { definitions := openedNamed chosen (place ++ ["definitions"]) definitions
        ref := ref
        type := type
        enum := enum
        elements := openedSingle chosen (place ++ ["elements"]) elements
        properties := openedNamed chosen (place ++ ["properties"]) properties
        optionalProperties :=
          openedNamed chosen (place ++ ["optionalProperties"]) optionalProperties
        additionalProperties :=
          if schema.form = .properties ∧ chosen place then some true else additionalProperties
        values := openedSingle chosen (place ++ ["values"]) values
        discriminator := openedRule chosen (place ++ ["discriminator", "mapping"]) discriminator }

/-- A schema inside another, if there is one. -/
def openedSingle (chosen : List String → Bool) (place : List String) :
    Option Schema → Option Schema
  | none => none
  | some schema => some (openedAt chosen place schema)

/-- The named schemas under a keyword, if it is set. -/
def openedNamed (chosen : List String → Bool) (place : List String) :
    Option (List (String × Schema)) → Option (List (String × Schema))
  | none => none
  | some fields => some (openedFields chosen place fields)

/-- The branches of a discriminator, if there is one. -/
def openedRule (chosen : List String → Bool) (place : List String) :
    Option (Discriminator Schema) → Option (Discriminator Schema)
  | none => none
  | some ⟨tag, mapping⟩ => some ⟨tag, openedFields chosen place mapping⟩

/-- Named schemas, each at its place behind the others'. -/
def openedFields (chosen : List String → Bool) (place : List String) :
    List (String × Schema) → List (String × Schema)
  | [] => []
  | (name, schema) :: rest =>
      (name, openedAt chosen (place ++ [name]) schema) :: openedFields chosen place rest

end

/-- Allow other members at the chosen places of an outermost schema. -/
def opened (chosen : List String → Bool) (schema : Schema) : Schema :=
  schema.openedAt chosen []

/-! ## Keywords of an opened schema -/

variable (chosen : List String → Bool) (place : List String)

theorem openedFields_eq (fields : List (String × Schema)) :
    openedFields chosen place fields = Shape.mapFieldsAt (openedAt chosen) place fields := by
  induction fields with
  | nil => rfl
  | cons field rest inductionHypothesis =>
      rcases field with ⟨name, schema⟩
      rw [openedFields, inductionHypothesis]
      rfl

theorem openedNamed_eq (named : Option (List (String × Schema))) :
    openedNamed chosen place named =
      named.map (Shape.mapFieldsAt (openedAt chosen) place) := by
  cases named with
  | none => rfl
  | some fields => rw [openedNamed, openedFields_eq, Option.map_some]

theorem openedSingle_eq (single : Option Schema) :
    openedSingle chosen place single = single.map (openedAt chosen place) := by
  cases single <;> rfl

theorem openedRule_eq (discriminator : Option (Discriminator Schema)) :
    openedRule chosen place discriminator = discriminator.map fun rule =>
      ⟨rule.tag, Shape.mapFieldsAt (openedAt chosen) place rule.mapping⟩ := by
  cases discriminator with
  | none => rfl
  | some rule => rw [openedRule, openedFields_eq, Option.map_some]

/-- The names of named schemas stay the same. -/
theorem names_openedFields (fields : List (String × Schema)) :
    Members.names (openedFields chosen place fields) = Members.names fields := by
  rw [openedFields_eq, Members.names, Members.names, Shape.mapFieldsAt, List.map_map]
  rfl

theorem names_openedNamed (named : Option (List (String × Schema))) :
    Members.names ((openedNamed chosen place named).getD []) =
      Members.names (named.getD []) := by
  cases named with
  | none => rfl
  | some fields => exact names_openedFields chosen place fields

/-- The shape of an opened schema, with the schemas inside opened as well. -/
theorem shape_openedAt (schema : Schema) :
    (schema.openedAt chosen place).shape =
      (schema.shape.mapAt (openedAt chosen) place).allowing (chosen place) := by
  rcases schema with ⟨_, ref, type, enum, elements, properties, optionalProperties, additional,
    values, discriminator⟩
  cases ref with
  | some name => rfl
  | none =>
    cases type with
    | some primitive => rfl
    | none =>
      cases enum with
      | some texts => rfl
      | none =>
        cases elements with
        | some item => rfl
        | none =>
          cases properties <;> cases optionalProperties <;> cases values <;>
            cases discriminator <;> cases isChosen : chosen place <;>
            simp [openedAt, shape, form, Shape.form, Shape.mapAt, Shape.allowing, openedNamed_eq,
              openedSingle_eq, openedRule_eq, isChosen]

theorem form_openedAt (schema : Schema) : (schema.openedAt chosen place).form = schema.form := by
  rw [form, form, shape_openedAt]
  cases schema.shape <;> rfl

/-- A definition is opened as what stands at its place. -/
theorem definition?_opened (schema : Schema) (name : String) :
    (schema.opened chosen).definition? name =
      (schema.definition? name).map (openedAt chosen ["definitions", name]) := by
  have sameDefinitions : (schema.opened chosen).definitions =
      schema.definitions.map (Shape.mapFieldsAt (openedAt chosen) ["definitions"]) := by
    cases schema
    exact openedNamed_eq ..
  rw [definition?, sameDefinitions, definition?]
  cases schema.definitions with
  | none => rfl
  | some fields => exact Shape.lookup_mapFieldsAt ..

/-! ## Violations of an opened schema -/

theorem populates_openedAt (schema : Schema) :
    (schema.openedAt chosen place).populates = schema.populates := by
  rcases schema with ⟨_, _, _, _, _, _, _, _, _, _⟩
  funext form
  cases form <;>
    simp [openedAt, populates, openedNamed_eq, openedSingle_eq, openedRule_eq]

theorem declares_openedAt (schema : Schema) (name : String) :
    (schema.openedAt chosen place).declares name = schema.declares name := by
  rcases schema with ⟨_, _, _, _, _, properties, optionalProperties, _, _, _⟩
  cases properties <;> cases optionalProperties <;>
    simp [openedAt, declares, openedNamed_eq]

theorem placementViolations_opened (outermost : Bool) (named : Option (List (String × Schema))) :
    placementViolations outermost (openedNamed chosen place named) =
      placementViolations outermost named := by
  have sameEmpty : (openedNamed chosen place named).getD [] = [] ↔ named.getD [] = [] := by
    rw [← List.map_eq_nil_iff (f := Prod.fst), ← List.map_eq_nil_iff (f := Prod.fst)]
    exact iff_of_eq (congrArg (· = []) (names_openedNamed chosen place named))
  simp only [placementViolations, ne_eq, sameEmpty]

theorem ruleViolations_opened (discriminator : Option (Discriminator Schema)) :
    ruleViolations (openedRule chosen place discriminator) = ruleViolations discriminator := by
  cases discriminator with
  | none => rfl
  | some rule =>
      rw [openedRule_eq, Option.map_some, ruleViolations, ruleViolations, Shape.mapFieldsAt,
        List.flatMap_map]
      congr 1
      funext branch
      simp only [branchViolations, form_openedAt, declares_openedAt]

section Inner

variable {chosen place} {root other : Schema}

/-- Named schemas have the violations that they had, if each of them has. -/
theorem fieldViolations_opened {fields : List (String × Schema)}
    (each : ∀ name inner, (name, inner) ∈ fields → ∀ place,
      violations other false (inner.openedAt chosen place) = violations root false inner) :
    fieldViolations other (openedFields chosen place fields) = fieldViolations root fields := by
  induction fields with
  | nil => rfl
  | cons field rest inductionHypothesis =>
      rcases field with ⟨name, inner⟩
      have later := inductionHypothesis fun laterName inside isField =>
        each laterName inside (List.mem_cons_of_mem _ isField)
      rw [openedFields, fieldViolations, fieldViolations, each name inner List.mem_cons_self, later]

theorem namedViolations_opened {named : Option (List (String × Schema))}
    (each : ∀ fields name inner, named = some fields → (name, inner) ∈ fields → ∀ place,
      violations other false (inner.openedAt chosen place) = violations root false inner) :
    namedViolations other (openedNamed chosen place named) = namedViolations root named := by
  cases named with
  | none => rfl
  | some fields =>
      rw [openedNamed, namedViolations, namedViolations]
      exact fieldViolations_opened fun name inner => each fields name inner rfl

theorem singleViolations_opened {single : Option Schema}
    (each : ∀ inner, single = some inner → ∀ place,
      violations other false (inner.openedAt chosen place) = violations root false inner) :
    singleViolations other (openedSingle chosen place single) = singleViolations root single := by
  cases single with
  | none => rfl
  | some inner =>
      rw [openedSingle, singleViolations, singleViolations]
      exact each inner rfl place

theorem mappingViolations_opened {discriminator : Option (Discriminator Schema)}
    (each : ∀ rule tagValue inner, discriminator = some rule → (tagValue, inner) ∈ rule.mapping →
      ∀ place, violations other false (inner.openedAt chosen place) =
        violations root false inner) :
    mappingViolations other (openedRule chosen place discriminator) =
      mappingViolations root discriminator := by
  cases discriminator with
  | none => rfl
  | some rule =>
      rcases rule with ⟨tag, mapping⟩
      rw [openedRule, mappingViolations, mappingViolations]
      exact fieldViolations_opened fun tagValue inner => each ⟨tag, mapping⟩ tagValue inner rfl

end Inner

/-- An opened schema has the violations that it had, in the same order. -/
theorem violations_openedAt (root : Schema) (outermost : Bool) (schema : Schema) :
    violations (root.opened chosen) outermost (schema.openedAt chosen place) =
      violations root outermost schema := by
  induction schema using treeInduction generalizing outermost place with
  | step schema insideChild insideDefinition =>
      have sameForms : formViolations (schema.openedAt chosen place) = formViolations schema := by
        simp only [formViolations, populates_openedAt]
      have sameDefined (ref : Option String) :
          refViolations (root.opened chosen) ref = refViolations root ref := by
        have sameNames : Members.names ((root.opened chosen).definitions.getD []) =
            Members.names (root.definitions.getD []) := by
          cases root
          exact names_openedNamed ..
        cases ref with
        | none => rfl
        | some name => rw [refViolations, refViolations, sameNames]
      rcases schema with ⟨definitions, ref, type, enum, elements, properties, optionalProperties,
        additionalProperties, values, discriminator⟩
      have ofDefinitions := fun fields name inner isSet isField place =>
        insideDefinition fields name inner isSet isField place false
      have ofElements := fun inner isSet place =>
        insideChild _ _ inner (.elements isSet) place false
      have ofRequired := fun fields name inner isSet isField place =>
        insideChild _ _ inner (@Child.required _ inner fields name isSet isField) place false
      have ofOptional := fun fields name inner isSet isField place =>
        insideChild _ _ inner (@Child.optional _ inner fields name isSet isField) place false
      have ofValues := fun inner isSet place =>
        insideChild _ _ inner (.values isSet) place false
      have ofMapping := fun rule tagValue inner isSet isBranch place =>
        insideChild _ _ inner (@Child.branch _ inner rule tagValue isSet isBranch) place false
      rw [openedAt] at sameForms ⊢
      rw [violations, violations, sameForms, sameDefined, placementViolations_opened,
        namedViolations_opened ofDefinitions, singleViolations_opened ofElements,
        namedViolations_opened ofRequired, namedViolations_opened ofOptional,
        singleViolations_opened ofValues, mappingViolations_opened ofMapping,
        ruleViolations_opened]
      simp only [overlapViolations, names_openedNamed]

/-- Opening a schema makes no difference to verification. -/
theorem verify_opened (schema : Schema) : (schema.opened chosen).verify = schema.verify := by
  rw [verify, verify, check_eq_firstOf, check_eq_firstOf]
  exact congrArg firstOf (violations_openedAt chosen [] schema true schema)

end Schema

end FormSchema
