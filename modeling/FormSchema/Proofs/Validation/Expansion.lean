import FormSchema.Validation.Walk
import FormSchema.Proofs.Schema.Shape

/-!
# One level of validation

`expand` lists what a shape asks of a value, in order and without a state: to reject a
place, to visit a value inside with a schema inside, or to follow a reference.  Places
are relative.  A place in the value is given by the tokens that lead there from the value
at hand, and a place in the schema continues the one that is passed down.

`Inward` is one step of the descent of a schema and a value together.  It forgets the
places: the visits of an expansion are exactly the steps inward.
-/

namespace FormSchema

/-- The finding with tokens before its place in the value. -/
def Finding.under (tokens : List String) (rejection : Finding) : Finding :=
  ⟨tokens ++ rejection.instancePath, rejection.schemaPath⟩

@[simp]
theorem Finding.under_nil (rejection : Finding) : rejection.under [] = rejection :=
  rfl

theorem Finding.under_append (outer inner : List String) (rejection : Finding) :
    rejection.under (outer ++ inner) = (rejection.under inner).under outer := by
  rw [under, List.append_assoc]
  rfl

/-- One thing that a shape asks of a value. -/
inductive Task (α : Type) where
  /-- Reject what lies at `suffix` in the value, as the place `place` in the schema
  demands. -/
  | reject (suffix place : List String)
  /-- Visit the value at `suffix` with a schema inside, which stands at `place` and is
  chosen by the tag `tag`, if any. -/
  | visit (inner : α) (value : Json) (suffix place : List String) (tag : Option String)
  /-- Follow a reference, with the same value. -/
  | follow (name : String)

/-- Apply a function to the schema that a task visits. -/
def Task.map {α β : Type} (function : α → β) : Task α → Task β
  | reject suffix place => .reject suffix place
  | visit inner value suffix place tag => .visit (function inner) value suffix place tag
  | follow name => .follow name

/-- Apply a function to the schema that a task visits and to its place. -/
def Task.mapAt {α β : Type} (function : List String → α → β) : Task α → Task β
  | reject suffix place => .reject suffix place
  | visit inner value suffix place tag => .visit (function place inner) value suffix place tag
  | follow name => .follow name

namespace Shape

variable {α β : Type}

/-- Is the name among the fields, if there are any? -/
def declares (fields : Option (List (String × α))) (name : String) : Bool :=
  match fields with
  | some fields => Members.has name fields
  | none => false

/-- A required property: visit it, or reject the object. -/
def expandRequired (members : List (String × Json)) (place : List String) :
    String × α → Task α
  | (name, property) =>
      match members.lookup name with
      | some value => .visit property value [name] (place ++ ["properties", name]) none
      | none => .reject [] (place ++ ["properties", name])

/-- An optional property: visit it if it is present. -/
def expandOptional (members : List (String × Json)) (place : List String) :
    String × α → Option (Task α)
  | (name, property) =>
      (members.lookup name).map fun value =>
        .visit property value [name] (place ++ ["optionalProperties", name]) none

/-- The properties of an object: the required ones, the optional ones that are present,
and then the members that are not declared, unless others are allowed. -/
def expandProperties (required optional : Option (List (String × α))) (additional : Bool)
    (members : List (String × Json)) (place : List String) (tag : Option String) :
    List (Task α) :=
  (required.getD []).map (expandRequired members place) ++
  (optional.getD []).filterMap (expandOptional members place) ++
  if additional then
    []
  else
    (members.filter fun member =>
      !(declares required member.1 || declares optional member.1 || tag = some member.1)).map
      fun member => .reject [member.1] place

/-- The branch of an object that its tag chooses. -/
def expandBranches (rule : Discriminator α) (members : List (String × Json))
    (place : List String) : Task α :=
  match members.lookup rule.tag with
  | none => .reject [] (place ++ ["discriminator", "tag"])
  | some (.string tagValue) =>
      match rule.mapping.lookup tagValue with
      | some branch =>
          .visit branch (.object members) [] (place ++ ["discriminator", "mapping", tagValue])
            (some rule.tag)
      | none => .reject [rule.tag] (place ++ ["discriminator", "mapping"])
  | some _ => .reject [rule.tag] (place ++ ["discriminator", "tag"])

/-- What a shape at `place`, chosen by `tag`, asks of a value, in order. -/
def expand : Shape α → Json → List String → Option String → List (Task α)
  | .empty, _, _, _ => []
  | .ref name, _, _, _ => [.follow name]
  | .type primitive, value, place, _ =>
      if primitive.accepts value then [] else [.reject [] (place ++ ["type"])]
  | .enum texts, value, place, _ =>
      match value with
      | .string text => if texts.contains text then [] else [.reject [] (place ++ ["enum"])]
      | _ => [.reject [] (place ++ ["enum"])]
  | .elements item, value, place, _ =>
      match value with
      | .array items =>
          items.zipIdx.map fun (value, position) =>
            .visit item value [toString position] (place ++ ["elements"]) none
      | _ => [.reject [] (place ++ ["elements"])]
  | .properties required optional additional, value, place, tag =>
      match value with
      | .object members => expandProperties required optional additional members place tag
      | _ =>
          [.reject [] (place ++
            [if required.isSome then "properties" else "optionalProperties"])]
  | .values member, value, place, _ =>
      match value with
      | .object members =>
          members.map fun (name, value) =>
            .visit member value [name] (place ++ ["values"]) none
      | _ => [.reject [] (place ++ ["values"])]
  | .discriminator rule, value, place, _ =>
      match value with
      | .object members => [expandBranches rule members place]
      | _ => [.reject [] (place ++ ["discriminator"])]

/-- The tasks of a required property: a visit if it is present, and a rejection if not. -/
theorem expandRequired_cases (members : List (String × Json)) (place : List String)
    (name : String) (property : α) :
    (∃ value, members.lookup name = some value ∧ expandRequired members place (name, property) =
        .visit property value [name] (place ++ ["properties", name]) none) ∨
      (members.lookup name = none ∧ expandRequired members place (name, property) =
        .reject [] (place ++ ["properties", name])) := by
  cases present : members.lookup name with
  | none => exact .inr ⟨rfl, by rw [expandRequired, present]⟩
  | some value => exact .inl ⟨value, rfl, by rw [expandRequired, present]⟩

/-- A task for the properties of an object is about a required property, about an optional
one that is present, or about a member that is not allowed. -/
theorem mem_expandProperties {required optional : Option (List (String × α))}
    {additional : Bool} {members : List (String × Json)} {place : List String}
    {tag : Option String} {task : Task α}
    (isTask : task ∈ expandProperties required optional additional members place tag) :
    (∃ name property, (name, property) ∈ required.getD [] ∧
        task = expandRequired members place (name, property)) ∨
      (∃ name property value, (name, property) ∈ optional.getD [] ∧
        members.lookup name = some value ∧
        task = .visit property value [name] (place ++ ["optionalProperties", name]) none) ∨
      (∃ name, additional = false ∧ name ∈ Members.names members ∧
        declares required name = false ∧ declares optional name = false ∧ tag ≠ some name ∧
        task = .reject [name] place) := by
  simp only [expandProperties, List.mem_append] at isTask
  obtain (isRequired | isOptional) | isUndeclared := isTask
  · obtain ⟨⟨name, property⟩, isField, rfl⟩ := List.mem_map.mp isRequired
    exact .inl ⟨name, property, isField, rfl⟩
  · obtain ⟨⟨name, property⟩, isField, expanded⟩ := List.mem_filterMap.mp isOptional
    obtain ⟨value, present, rfl⟩ := Option.map_eq_some_iff.mp expanded
    exact .inr (.inl ⟨name, property, value, isField, present, rfl⟩)
  · cases additional with
    | true => cases isUndeclared
    | false =>
        obtain ⟨⟨name, value⟩, isKept, rfl⟩ := List.mem_map.mp isUndeclared
        obtain ⟨isMember, undeclared⟩ := List.mem_filter.mp isKept
        simp only [Bool.not_eq_true', Bool.or_eq_false_iff, decide_eq_false_iff_not] at undeclared
        exact .inr (.inr ⟨name, rfl, List.mem_map_of_mem (f := Prod.fst) isMember,
          undeclared.1.1, undeclared.1.2, undeclared.2, rfl⟩)

/-! ## What a function on the schemas inside leaves alone -/

@[simp]
theorem declares_mapFieldsAt (function : List String → α → β) (fieldsPlace : List String)
    (fields : Option (List (String × α))) (name : String) :
    declares (fields.map (mapFieldsAt function fieldsPlace)) name = declares fields name := by
  cases fields with
  | none => rfl
  | some fields => exact has_mapFieldsAt function fieldsPlace name fields

@[simp]
theorem declares_mapFields (function : α → β) (fields : Option (List (String × α)))
    (name : String) :
    declares (fields.map (mapFields function)) name = declares fields name :=
  declares_mapFieldsAt (fun _ => function) [] fields name

theorem expandRequired_mapAt (function : List String → α → β) (members : List (String × Json))
    (place : List String) (field : String × α) :
    expandRequired members place
        (field.1, function (place ++ ["properties"] ++ [field.1]) field.2) =
      (expandRequired members place field).mapAt function := by
  rw [List.append_assoc]
  simp only [expandRequired]
  cases members.lookup field.1 <;> rfl

theorem expandOptional_mapAt (function : List String → α → β) (members : List (String × Json))
    (place : List String) (field : String × α) :
    expandOptional members place
        (field.1, function (place ++ ["optionalProperties"] ++ [field.1]) field.2) =
      (expandOptional members place field).map (Task.mapAt function) := by
  rw [List.append_assoc]
  simp only [expandOptional]
  cases members.lookup field.1 <;> rfl

theorem expandProperties_mapAt (function : List String → α → β)
    (required optional : Option (List (String × α))) (additional : Bool)
    (members : List (String × Json)) (place : List String) (tag : Option String) :
    expandProperties (required.map (mapFieldsAt function (place ++ ["properties"])))
        (optional.map (mapFieldsAt function (place ++ ["optionalProperties"])))
        additional members place tag =
      (expandProperties required optional additional members place tag).map
        (Task.mapAt function) := by
  have requiredTasks : ((required.map (mapFieldsAt function (place ++ ["properties"]))).getD
        []).map (expandRequired members place) =
      ((required.getD []).map (expandRequired members place)).map (Task.mapAt function) := by
    cases required with
    | none => rfl
    | some fields =>
        simp only [Option.map_some, Option.getD_some, mapFieldsAt, List.map_map]
        apply List.map_congr_left
        intro field _
        exact expandRequired_mapAt function members place field
  have optionalTasks : ((optional.map (mapFieldsAt function
        (place ++ ["optionalProperties"]))).getD []).filterMap (expandOptional members place) =
      ((optional.getD []).filterMap (expandOptional members place)).map
        (Task.mapAt function) := by
    cases optional with
    | none => rfl
    | some fields =>
        simp only [Option.map_some, Option.getD_some, mapFieldsAt, List.filterMap_map,
          List.map_filterMap]
        congr 1
        funext field
        exact expandOptional_mapAt function members place field
  simp only [expandProperties, requiredTasks, optionalTasks, declares_mapFieldsAt,
    List.map_append]
  cases additional <;> simp [Task.mapAt]

/-- A function on the schemas inside and their places is one on what is visited and where. -/
theorem expand_mapAt (function : List String → α → β) (shape : Shape α) (value : Json)
    (place : List String) (tag : Option String) :
    (shape.mapAt function place).expand value place tag =
      (shape.expand value place tag).map (Task.mapAt function) := by
  cases shape with
  | empty => rfl
  | ref name => rfl
  | type primitive =>
      simp only [mapAt, expand]
      cases primitive.accepts value <;> rfl
  | enum texts =>
      cases value <;> try rfl
      rename_i text
      simp only [mapAt, expand]
      cases texts.contains text <;> rfl
  | elements item =>
      cases value <;> try rfl
      simp [mapAt, expand, Task.mapAt]
  | properties required optional additional =>
      cases value <;> try simp [mapAt, expand, Task.mapAt]
      exact expandProperties_mapAt ..
  | values member =>
      cases value <;> try rfl
      simp [mapAt, expand, Task.mapAt]
  | discriminator rule =>
      cases value <;> try rfl
      rename_i members
      simp only [mapAt, expand, expandBranches, lookup_mapFieldsAt, List.map_cons, List.map_nil,
        List.append_assoc]
      cases members.lookup rule.tag with
      | none => rfl
      | some tagValue =>
          cases tagValue <;> try rfl
          rename_i text
          simp only
          cases rule.mapping.lookup text <;> rfl

/-- The expansion does not depend on what the schemas inside are. -/
theorem expand_map (function : α → β) (shape : Shape α) (value : Json)
    (place : List String) (tag : Option String) :
    (shape.map function).expand value place tag =
      (shape.expand value place tag).map (Task.map function) := by
  have sameTask : Task.mapAt (fun _ => function) = Task.map function := by
    funext task
    cases task <;> rfl
  rw [map_eq_mapAt function place, expand_mapAt, sameTask]

/-! ## Steps inward -/

/-- One step that a shape and a value take together: to a schema inside and to the value
that this schema is about.  Only the branch of a discriminator is about the same value. -/
inductive Inward : Shape α → Json → α → Json → Prop where
  | item {item : α} {items : List Json} {value : Json} (isItem : value ∈ items) :
      Inward (.elements item) (.array items) item value
  | required {required optional : Option (List (String × α))} {additional : Bool}
      {members : List (String × Json)} {name : String} {property : α} {value : Json}
      (isField : (name, property) ∈ required.getD [])
      (present : members.lookup name = some value) :
      Inward (.properties required optional additional) (.object members) property value
  | optional {required optional : Option (List (String × α))} {additional : Bool}
      {members : List (String × Json)} {name : String} {property : α} {value : Json}
      (isField : (name, property) ∈ optional.getD [])
      (present : members.lookup name = some value) :
      Inward (.properties required optional additional) (.object members) property value
  | member {member : α} {members : List (String × Json)} {name : String} {value : Json}
      (isMember : (name, value) ∈ members) :
      Inward (.values member) (.object members) member value
  | branch {rule : Discriminator α} {members : List (String × Json)} {tagValue : String}
      {branch : α} (tagged : members.lookup rule.tag = some (.string tagValue))
      (mapped : rule.mapping.lookup tagValue = some branch) :
      Inward (.discriminator rule) (.object members) branch (.object members)

theorem Inward.mem_inner {shape : Shape α} {value innerValue : Json} {inside : α}
    (inward : Inward shape value inside innerValue) : inside ∈ shape.inner := by
  cases inward with
  | item => exact List.mem_singleton_self _
  | required isField =>
      exact List.mem_append_left _ (List.mem_map_of_mem (f := Prod.snd) isField)
  | optional isField =>
      exact List.mem_append_right _ (List.mem_map_of_mem (f := Prod.snd) isField)
  | member => exact List.mem_singleton_self _
  | branch _ mapped => exact List.mem_map_of_mem (f := Prod.snd) (Members.mem_of_lookup mapped)

/-- Every visit is a step inward. -/
theorem inward_of_mem_expand {shape : Shape α} {value innerValue : Json} {inside : α}
    {place suffix innerPlace : List String} {tag innerTag : Option String}
    (isTask : .visit inside innerValue suffix innerPlace innerTag ∈
      shape.expand value place tag) :
    Inward shape value inside innerValue := by
  cases shape with
  | empty => simp [expand] at isTask
  | ref name => simp [expand] at isTask
  | type primitive => simp [expand] at isTask
  | enum texts =>
      cases value <;> simp [expand] at isTask
  | elements item =>
      cases value <;> simp only [expand, List.mem_singleton, reduceCtorEq] at isTask
      obtain ⟨⟨_, position⟩, isItem, same⟩ := List.mem_map.mp isTask
      cases same
      exact .item (List.fst_mem_of_mem_zipIdx isItem)
  | properties required optional additional =>
      cases value <;> simp only [expand, List.mem_singleton, reduceCtorEq] at isTask
      rename_i members
      obtain ⟨name, property, isField, same⟩ | ⟨name, property, found, isField, present, same⟩ |
        ⟨name, -, -, -, -, -, same⟩ := mem_expandProperties isTask
      · obtain ⟨found, present, expanded⟩ | ⟨-, expanded⟩ :=
          expandRequired_cases members place name property
        · cases same.trans expanded
          exact .required isField present
        · cases same.trans expanded
      · cases same
        exact .optional isField present
      · cases same
  | values member =>
      cases value <;> simp only [expand, List.mem_singleton, reduceCtorEq] at isTask
      obtain ⟨⟨name, _⟩, isMember, same⟩ := List.mem_map.mp isTask
      cases same
      exact .member isMember
  | discriminator rule =>
      cases value <;> simp only [expand, List.mem_singleton, reduceCtorEq] at isTask
      rename_i members
      unfold expandBranches at isTask
      split at isTask <;> try cases isTask
      rename_i tagValue tagged
      split at isTask <;> cases isTask
      exact .branch tagged ‹_›

/-- Every step inward is a visit, at whatever place and with whatever tag the shape is
entered. -/
theorem Inward.mem_expand {shape : Shape α} {value innerValue : Json} {inside : α}
    (inward : Inward shape value inside innerValue) (place : List String)
    (tag : Option String) :
    ∃ suffix innerPlace innerTag,
      .visit inside innerValue suffix innerPlace innerTag ∈ shape.expand value place tag := by
  cases inward with
  | item isItem =>
      obtain ⟨position, isAt⟩ := List.mem_iff_getElem?.mp isItem
      have isEntry := List.mk_mem_zipIdx_iff_getElem?.mpr isAt
      exact ⟨_, _, _, List.mem_map_of_mem isEntry⟩
  | @required required _ _ members name _ _ isField present =>
      have isTask := List.mem_map_of_mem (f := expandRequired members place) isField
      simp only [expandRequired, present] at isTask
      exact ⟨_, _, _, List.mem_append_left _ (List.mem_append_left _ isTask)⟩
  | @optional _ optional _ members name _ _ isField present =>
      have expanded : expandOptional members place (name, inside) =
          some (.visit inside innerValue [name] (place ++ ["optionalProperties", name]) none) := by
        simp only [expandOptional, present, Option.map_some]
      have isTask := List.mem_filterMap.mpr ⟨_, isField, expanded⟩
      exact ⟨_, _, _, List.mem_append_left _ (List.mem_append_right _ isTask)⟩
  | member isMember => exact ⟨_, _, _, List.mem_map_of_mem isMember⟩
  | @branch rule members tagValue _ tagged mapped =>
      have expanded : expandBranches rule members place =
          .visit inside (.object members) [] (place ++ ["discriminator", "mapping", tagValue])
            (some rule.tag) := by
        simp only [expandBranches, tagged, mapped]
      exact ⟨_, _, _, List.mem_singleton.mpr expanded.symm⟩

theorem follow_mem_expand_iff {shape : Shape α} {value : Json} {place : List String}
    {tag : Option String} {name : String} :
    .follow name ∈ shape.expand value place tag ↔ shape = .ref name := by
  constructor
  · intro isTask
    cases shape with
    | empty => simp [expand] at isTask
    | ref other =>
        simp only [expand, List.mem_singleton, Task.follow.injEq] at isTask
        rw [isTask]
    | type primitive => simp [expand] at isTask
    | enum texts => cases value <;> simp [expand] at isTask
    | elements item => cases value <;> simp [expand] at isTask
    | properties required optional additional =>
        cases value <;> simp only [expand, List.mem_singleton, reduceCtorEq] at isTask
        rename_i members
        obtain ⟨other, property, -, same⟩ | ⟨other, property, found, -, -, same⟩ |
          ⟨other, -, -, -, -, -, same⟩ := mem_expandProperties isTask
        · obtain ⟨found, -, expanded⟩ | ⟨-, expanded⟩ :=
            expandRequired_cases members place other property
          · cases same.trans expanded
          · cases same.trans expanded
        · cases same
        · cases same
    | values member => cases value <;> simp [expand] at isTask
    | discriminator rule =>
        cases value <;> simp only [expand, List.mem_singleton, reduceCtorEq] at isTask
        unfold expandBranches at isTask
        split at isTask <;> try cases isTask
        split at isTask <;> cases isTask
  · rintro rfl
    exact List.mem_singleton_self _

end Shape

end FormSchema
