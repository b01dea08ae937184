import FormSchema.Proofs.Validation.Simulation

/-!
# Scripts of a walk

A script is what a walk does, written down: which tokens it puts on its stacks and takes off again,
where it rejects a value, where it evaluates a schema and where it meets a reference.  The script of
a shape goes one level deep, and leaves the schemas inside to be evaluated.

`action` gives back the part of a walk that a script stands for.  The script of a shape stands for
visiting the shape.
-/

namespace FormSchema

/-- What a part of a walk does. -/
inductive Script where
  | skip
  | reject
  | eval (schema : Schema) (value : Json) (tag : Option String)
  | follow (name : String) (value : Json)
  | seq (first next : Script)
  /-- Do what is inside with one more token on the innermost frame. -/
  | inSchema (token : String) (inside : Script)
  /-- Do what is inside with one more token on the place in the value. -/
  | inInstance (token : String) (inside : Script)

namespace Script

/-- One script after the other. -/
def each : List Script → Script
  | [] => .skip
  | first :: rest => .seq first (each rest)

def require (condition : Bool) : Script :=
  if condition then .skip else .reject

def items (item : Schema) (position : Nat) (values : List Json) : Script :=
  each <| (values.zipIdx position).map fun (value, index) =>
    .inInstance (toString index) (.eval item value none)

def members (member : Schema) (values : List (String × Json)) : Script :=
  each <| values.map fun (name, value) => .inInstance name (.eval member value none)

def required (values : List (String × Json)) (fields : List (String × Schema)) : Script :=
  each <| fields.map fun (name, property) => .inSchema name <|
    match values.lookup name with
    | some value => .inInstance name (.eval property value none)
    | none => .reject

def optional (values : List (String × Json)) (fields : List (String × Schema)) : Script :=
  each <| fields.map fun (name, property) =>
    match values.lookup name with
    | some value => .inSchema name (.inInstance name (.eval property value none))
    | none => .skip

def undeclared (declared : String → Bool) (values : List (String × Json)) : Script :=
  each <| values.map fun (name, _) =>
    if declared name then .skip else .inInstance name .reject

def properties (requiredFields optionalFields : Option (List (String × Schema)))
    (additional : Bool) (values : List (String × Json)) (tag : Option String) : Script :=
  .seq
    (match requiredFields with
      | some fields => .inSchema "properties" (required values fields)
      | none => .skip) <|
  .seq
    (match optionalFields with
      | some fields => .inSchema "optionalProperties" (optional values fields)
      | none => .skip) <|
  if additional then
    .skip
  else
    undeclared (fun name => Shape.declares requiredFields name ||
      Shape.declares optionalFields name || tag = some name) values

/-- Evaluate a schema for each item of a list. -/
def elements (item : Schema) : Json → Script
  | .array values => items item 0 values
  | _ => .reject

/-- Evaluate the branch that the tag of an object chooses. -/
def discriminator (rule : Discriminator Schema) : Json → Script
  | .object values =>
      match values.lookup rule.tag with
      | none => .inSchema "tag" .reject
      | some (.string tagValue) =>
          .inSchema "mapping" <|
            match rule.mapping.lookup tagValue with
            | some branch => .inSchema tagValue (.eval branch (.object values) (some rule.tag))
            | none => .inInstance rule.tag .reject
      | some _ => .inSchema "tag" (.inInstance rule.tag .reject)
  | _ => .reject

/-- What a shape does with a value. -/
def ofShape : Shape Schema → Json → Option String → Script
  | .empty, _, _ => .skip
  | .ref name, value, _ => .follow name value
  | .type primitive, value, _ => .inSchema "type" (require (primitive.accepts value))
  | .enum texts, value, _ =>
      .inSchema "enum" <| require <|
        match value with
        | .string text => texts.contains text
        | _ => false
  | .elements item, value, _ => .inSchema "elements" (elements item value)
  | .properties requiredFields optionalFields additional, value, tag =>
      match value with
      | .object values => properties requiredFields optionalFields additional values tag
      | _ =>
          .inSchema (if requiredFields.isSome then "properties" else "optionalProperties") .reject
  | .values member, value, _ =>
      .inSchema "values" <|
        match value with
        | .object values => members member values
        | _ => .reject
  | .discriminator rule, value, _ => .inSchema "discriminator" (discriminator rule value)

/-! ## What scripts stand for -/

section Action

variable (root : Schema) (allowance : Nat)

/-- The part of a walk that a script stands for. -/
def action : Script → Walking Unit
  | skip => pure ()
  | reject => Walking.reject
  | eval schema value tag => Walking.walk root allowance schema value tag
  | follow name value => Walking.follow root allowance name value
  | seq first next => action first >>= fun _ => action next
  | inSchema token inside => Walking.atSchema token (action inside)
  | inInstance token inside => Walking.atInstance token (action inside)

theorem action_require (condition : Bool) :
    (require condition).action root allowance = Walking.require condition := by
  cases condition <;> rfl

theorem action_items (item : Schema) (position : Nat) (values : List Json) :
    (items item position values).action root allowance =
      Walking.eachItem (Walking.walk root allowance item) position values := by
  induction values generalizing position with
  | nil => rfl
  | cons value rest inductionHypothesis =>
      rw [Walking.eachItem, ← inductionHypothesis]
      rfl

theorem action_members (member : Schema) (values : List (String × Json)) :
    (members member values).action root allowance =
      Walking.eachMember (Walking.walk root allowance member) values := by
  induction values with
  | nil => rfl
  | cons value rest inductionHypothesis =>
      rw [Walking.eachMember, ← inductionHypothesis]
      rfl

theorem action_required (values : List (String × Json)) (fields : List (String × Schema)) :
    (required values fields).action root allowance =
      Walking.eachRequired values (Shape.mapFields (Walking.walk root allowance) fields) := by
  induction fields with
  | nil => rfl
  | cons field rest inductionHypothesis =>
      simp only [Shape.mapFields] at inductionHypothesis
      simp only [Shape.mapFields, List.map_cons, Walking.eachRequired, ← inductionHypothesis]
      simp only [required, List.map_cons, each, action]
      cases values.lookup field.1 <;> rfl

theorem action_optional (values : List (String × Json)) (fields : List (String × Schema)) :
    (optional values fields).action root allowance =
      Walking.eachOptional values (Shape.mapFields (Walking.walk root allowance) fields) := by
  induction fields with
  | nil => rfl
  | cons field rest inductionHypothesis =>
      simp only [Shape.mapFields] at inductionHypothesis
      simp only [Shape.mapFields, List.map_cons, Walking.eachOptional, ← inductionHypothesis]
      simp only [optional, List.map_cons, each, action]
      cases values.lookup field.1 <;> rfl

theorem action_undeclared (declared : String → Bool) (values : List (String × Json)) :
    (undeclared declared values).action root allowance =
      Walking.eachUndeclared declared values := by
  induction values with
  | nil => rfl
  | cons value rest inductionHypothesis =>
      rw [Walking.eachUndeclared, ← inductionHypothesis]
      simp only [undeclared, List.map_cons, each, action]
      split <;> rfl

theorem action_properties (requiredFields optionalFields : Option (List (String × Schema)))
    (additional : Bool) (values : List (String × Json)) (tag : Option String) :
    (properties requiredFields optionalFields additional values tag).action root allowance =
      Walking.properties (requiredFields.map (Shape.mapFields (Walking.walk root allowance)))
        (optionalFields.map (Shape.mapFields (Walking.walk root allowance))) additional values
        tag := by
  rw [Walking.properties_eq]
  simp only [properties, action, Shape.declares_mapFields]
  cases requiredFields <;> cases optionalFields <;> cases additional <;>
    simp only [Option.map, action, action_required, action_optional, action_undeclared,
      Bool.false_eq_true, if_true, if_false]

theorem action_elements (item : Schema) (value : Json) :
    (elements item value).action root allowance =
      match value with
      | .array values => Walking.eachItem (Walking.walk root allowance item) 0 values
      | _ => Walking.reject := by
  cases value <;> try rfl
  exact action_items root allowance item 0 _

theorem action_discriminator (rule : Discriminator Schema) (value : Json) :
    (discriminator rule value).action root allowance =
      match value with
      | .object values => Walking.branches
          ⟨rule.tag, Shape.mapFields (Walking.walk root allowance) rule.mapping⟩ values
      | _ => Walking.reject := by
  cases value <;> try rfl
  rename_i values
  simp only [discriminator, Walking.branches, Shape.lookup_mapFields]
  cases values.lookup rule.tag with
  | none => rfl
  | some tagValue =>
      cases tagValue <;> try rfl
      simp only [action]
      cases rule.mapping.lookup _ <;> rfl

/-- The script of a shape stands for visiting the shape. -/
theorem action_ofShape (shape : Shape Schema) (value : Json) (tag : Option String) :
    (ofShape shape value tag).action root allowance =
      Walking.visit (Walking.follow root allowance) (shape.map (Walking.walk root allowance)) value
        tag := by
  cases shape with
  | empty | ref => rfl
  | type primitive =>
      exact congrArg (Walking.atSchema "type") (action_require root allowance _)
  | enum texts =>
      exact congrArg (Walking.atSchema "enum") (action_require root allowance _)
  | elements item =>
      exact congrArg (Walking.atSchema "elements") (action_elements root allowance item value)
  | properties requiredFields optionalFields additional =>
      cases value <;> try (cases requiredFields <;> rfl)
      exact action_properties root allowance requiredFields optionalFields additional _ tag
  | values member =>
      cases value <;> try rfl
      exact congrArg (Walking.atSchema "values") (action_members root allowance member _)
  | discriminator rule =>
      exact congrArg (Walking.atSchema "discriminator")
        (action_discriminator root allowance rule value)

end Action

/-! ## The schemas that a script evaluates -/

/-- Every schema that the script evaluates has the property. -/
def Evaluates (property : Schema → Prop) : Script → Prop
  | eval schema _ _ => property schema
  | seq first next => first.Evaluates property ∧ next.Evaluates property
  | inSchema _ inside | inInstance _ inside => inside.Evaluates property
  | skip | reject | follow _ _ => True

section Evaluates

variable {property : Schema → Prop}

/-- What holds of every schema holds of those that a script evaluates. -/
theorem evaluates_of_forall (holds : ∀ schema, property schema) (script : Script) :
    script.Evaluates property := by
  induction script with
  | skip | reject | follow => trivial
  | eval schema => exact holds schema
  | seq first next firstEvaluates nextEvaluates => exact ⟨firstEvaluates, nextEvaluates⟩
  | inSchema _ inside insideEvaluates | inInstance _ inside insideEvaluates =>
      exact insideEvaluates

theorem Evaluates.mono {other : Schema → Prop} (implies : ∀ schema, property schema → other schema)
    {script : Script} (evaluates : script.Evaluates property) : script.Evaluates other := by
  induction script with
  | skip | reject | follow => trivial
  | eval schema => exact implies schema evaluates
  | seq first next firstEvaluates nextEvaluates =>
      exact ⟨firstEvaluates evaluates.1, nextEvaluates evaluates.2⟩
  | inSchema _ inside insideEvaluates | inInstance _ inside insideEvaluates =>
      exact insideEvaluates evaluates

theorem evaluates_each {scripts : List Script}
    (evaluate : ∀ script ∈ scripts, script.Evaluates property) :
    (each scripts).Evaluates property := by
  induction scripts with
  | nil => trivial
  | cons first rest inductionHypothesis =>
      obtain ⟨firstEvaluates, restEvaluate⟩ := List.forall_mem_cons.mp evaluate
      exact ⟨firstEvaluates, inductionHypothesis restEvaluate⟩

theorem evaluates_require (condition : Bool) : (require condition).Evaluates property := by
  cases condition <;> trivial

theorem evaluates_required {values : List (String × Json)} {fields : List (String × Schema)}
    (holds : ∀ field ∈ fields, property field.2) :
    (required values fields).Evaluates property := by
  refine evaluates_each fun script isScript => ?_
  obtain ⟨field, isField, rfl⟩ := List.mem_map.mp isScript
  dsimp only [Evaluates]
  split
  · exact holds field isField
  · trivial

theorem evaluates_optional {values : List (String × Json)} {fields : List (String × Schema)}
    (holds : ∀ field ∈ fields, property field.2) :
    (optional values fields).Evaluates property := by
  refine evaluates_each fun script isScript => ?_
  obtain ⟨field, isField, rfl⟩ := List.mem_map.mp isScript
  dsimp only
  split
  · exact holds field isField
  · trivial

theorem evaluates_undeclared (declared : String → Bool) (values : List (String × Json)) :
    (undeclared declared values).Evaluates property := by
  refine evaluates_each fun script isScript => ?_
  obtain ⟨value, -, rfl⟩ := List.mem_map.mp isScript
  dsimp only
  split <;> trivial

theorem evaluates_properties {requiredFields optionalFields : Option (List (String × Schema))}
    (requiredHold : ∀ field ∈ requiredFields.getD [], property field.2)
    (optionalHold : ∀ field ∈ optionalFields.getD [], property field.2) (additional : Bool)
    (values : List (String × Json)) (tag : Option String) :
    (properties requiredFields optionalFields additional values tag).Evaluates property := by
  refine ⟨?_, ?_, ?_⟩
  · cases requiredFields with
    | none => trivial
    | some fields => exact evaluates_required requiredHold
  · cases optionalFields with
    | none => trivial
    | some fields => exact evaluates_optional optionalHold
  · cases additional with
    | true => trivial
    | false =>
        rw [if_neg Bool.false_ne_true]
        exact evaluates_undeclared _ _

theorem evaluates_elements {item : Schema} (holds : property item) (value : Json) :
    (elements item value).Evaluates property := by
  cases value <;> try trivial
  refine evaluates_each fun script isScript => ?_
  obtain ⟨value, -, rfl⟩ := List.mem_map.mp isScript
  exact holds

theorem evaluates_discriminator {rule : Discriminator Schema}
    (holds : ∀ branch ∈ rule.mapping, property branch.2) (value : Json) :
    (discriminator rule value).Evaluates property := by
  cases value <;> try trivial
  dsimp only [discriminator]
  split
  · trivial
  · dsimp only [Evaluates]
    split
    · rename_i branch isBranch
      exact holds _ (Members.mem_of_lookup isBranch)
    · trivial
  · trivial

/-- The script of a shape evaluates the schemas inside the shape. -/
theorem evaluates_ofShape (shape : Shape Schema) (value : Json) (tag : Option String) :
    (ofShape shape value tag).Evaluates (· ∈ shape.inner) := by
  cases shape with
  | empty | ref => trivial
  | type primitive => exact evaluates_require _
  | enum texts => exact evaluates_require _
  | elements item => exact evaluates_elements (List.mem_singleton_self item) value
  | properties requiredFields optionalFields additional =>
      cases value <;> try trivial
      refine evaluates_properties (fun field isField => ?_) (fun field isField => ?_) _ _ _
      · exact List.mem_append_left _ (List.mem_map_of_mem (f := Prod.snd) isField)
      · exact List.mem_append_right _ (List.mem_map_of_mem (f := Prod.snd) isField)
  | values member =>
      cases value <;> try trivial
      refine evaluates_each fun script isScript => ?_
      obtain ⟨value, -, rfl⟩ := List.mem_map.mp isScript
      exact List.mem_singleton_self member
  | discriminator rule =>
      exact evaluates_discriminator
        (fun branch isBranch => List.mem_map_of_mem (f := Prod.snd) isBranch) value

end Evaluates

end Script

end FormSchema
