import FormSchema.Proofs.Schema.Settings

/-!
# The tree of a schema that is read

Every schema in the tree of a schema that is read has been read by itself.  What reading checks
at one schema therefore holds in the whole tree: an enumeration has values, and none of them
twice.
-/

namespace FormSchema.Schema

/-- A schema stands under a keyword of another, definitions included. -/
def Holds (schema inner : Schema) : Prop :=
  ∃ keyword setting, schema.setting? keyword = some setting ∧ inner ∈ setting.inner

/-- No schema in the tree enumerates a value twice. -/
def DistinctValues (schema : Schema) : Prop :=
  ∀ place node, schema.Contains place node → (node.enum.getD []).Nodup

/-- No schema in the tree has an enumeration without values. -/
def InhabitedEnums (schema : Schema) : Prop :=
  ∀ place node, schema.Contains place node → node.enum ≠ some []

section Tree

variable {schema inner : Schema}

/-! ## One step into the tree -/

theorem Child.holds {tokens : List String} {tag : Option String}
    (step : Child schema tokens tag inner) : schema.Holds inner := by
  cases step with
  | elements isSet =>
      exact ⟨.elements, .elements inner, by rw [setting?, isSet]; rfl, List.mem_singleton_self _⟩
  | values isSet =>
      exact ⟨.values, .values inner, by rw [setting?, isSet]; rfl, List.mem_singleton_self _⟩
  | @required _ fields _ isSet isField =>
      exact ⟨.properties, .properties fields, by rw [setting?, isSet]; rfl,
        List.mem_map_of_mem (f := Prod.snd) isField⟩
  | @optional _ fields _ isSet isField =>
      exact ⟨.optionalProperties, .optionalProperties fields, by rw [setting?, isSet]; rfl,
        List.mem_map_of_mem (f := Prod.snd) isField⟩
  | @branch _ rule _ isSet isBranch =>
      exact ⟨.discriminator, .discriminator rule, by rw [setting?, isSet]; rfl,
        List.mem_map_of_mem (f := Prod.snd) isBranch⟩

theorem holds_of_definition {fields : List (String × Schema)} {name : String}
    (isSet : schema.definitions = some fields) (isField : (name, inner) ∈ fields) :
    schema.Holds inner :=
  ⟨.definitions, .definitions fields, by rw [setting?, isSet]; rfl,
    List.mem_map_of_mem (f := Prod.snd) isField⟩

/-- What stands under a keyword is a schema directly inside, or a definition. -/
theorem Holds.child_or_definition (holds : schema.Holds inner) :
    (∃ tokens tag, Child schema tokens tag inner) ∨
      ∃ fields name, schema.definitions = some fields ∧ (name, inner) ∈ fields := by
  obtain ⟨keyword, setting, isSet, isInner⟩ := holds
  cases keyword <;> obtain ⟨content, isContent, rfl⟩ := Option.map_eq_some_iff.mp isSet
  case definitions =>
    obtain ⟨⟨name, _⟩, isField, rfl⟩ := List.mem_map.mp isInner
    exact .inr ⟨content, name, isContent, isField⟩
  case properties =>
    obtain ⟨⟨name, _⟩, isField, rfl⟩ := List.mem_map.mp isInner
    exact .inl ⟨_, _, .required isContent isField⟩
  case optionalProperties =>
    obtain ⟨⟨name, _⟩, isField, rfl⟩ := List.mem_map.mp isInner
    exact .inl ⟨_, _, .optional isContent isField⟩
  case elements =>
    obtain rfl := List.mem_singleton.mp isInner
    exact .inl ⟨_, _, .elements isContent⟩
  case values =>
    obtain rfl := List.mem_singleton.mp isInner
    exact .inl ⟨_, _, .values isContent⟩
  case discriminator =>
    obtain ⟨⟨name, _⟩, isBranch, rfl⟩ := List.mem_map.mp isInner
    exact .inl ⟨_, _, .branch isContent isBranch⟩
  all_goals cases isInner

theorem Holds.contains (holds : schema.Holds inner) {place : List String} {node : Schema}
    (below : Contains inner place node) : ∃ outer, Contains schema outer node := by
  obtain ⟨tokens, tag, step⟩ | ⟨fields, name, isSet, isField⟩ := holds.child_or_definition
  · exact ⟨_, .child step below⟩
  · exact ⟨_, .definition isSet isField below⟩

/-- What holds of a schema once it holds of those under its keywords holds of every schema. -/
theorem holdsInduction {motive : Schema → Prop}
    (step : ∀ schema : Schema, (∀ inner, schema.Holds inner → motive inner) → motive schema)
    (schema : Schema) : motive schema := by
  induction schema using treeInduction with
  | step schema insideChild insideDefinition =>
      refine step schema fun inner holds => ?_
      obtain ⟨tokens, tag, child⟩ | ⟨fields, name, isSet, isField⟩ := holds.child_or_definition
      · exact insideChild tokens tag inner child
      · exact insideDefinition fields name inner isSet isField

/-- What the schemas of a tree have, the outermost one has and the trees under its keywords. -/
theorem forall_contains_iff {property : Schema → Prop} :
    (∀ place node, schema.Contains place node → property node) ↔
      property schema ∧ ∀ inner, schema.Holds inner →
        ∀ place node, inner.Contains place node → property node := by
  constructor
  · intro everywhere
    refine ⟨everywhere [] schema .self, fun inner holds place node below => ?_⟩
    obtain ⟨outer, contains⟩ := holds.contains below
    exact everywhere outer node contains
  · rintro ⟨here, below⟩ place node contains
    cases contains with
    | self => exact here
    | child step inside => exact below _ step.holds _ node inside
    | definition isSet isField inside =>
        exact below _ (holds_of_definition isSet isField) _ node inside

theorem distinctValues_iff :
    schema.DistinctValues ↔
      (schema.enum.getD []).Nodup ∧ ∀ inner, schema.Holds inner → inner.DistinctValues :=
  forall_contains_iff

theorem inhabitedEnums_iff :
    schema.InhabitedEnums ↔
      schema.enum ≠ some [] ∧ ∀ inner, schema.Holds inner → inner.InhabitedEnums :=
  forall_contains_iff

/-! ## Reading every schema -/

variable {value : Json}

/-- Every setting has been read from some value. -/
theorem exists_settingOf (isRead : ofJson value = .ok schema) {keyword : Keyword}
    {setting : Setting} (isSet : schema.setting? keyword = some setting) :
    ∃ content, Decode.settingOf keyword content = .ok setting := by
  cases value with
  | object members =>
      obtain ⟨-, unset⟩ | ⟨content, other, -, isSetting, isOther⟩ :=
        Decode.setting?_of_keywords isRead keyword
      · rw [isSet, setting?_empty] at unset
        cases unset
      · rw [isSet, Option.some.injEq] at isOther
        exact ⟨content, isOther ▸ isSetting⟩
  | _ => cases isRead

theorem exists_ofJson_of_schemas {content : Json} {fields : List (String × Schema)}
    (areRead : Decode.schemas content = .ok fields) (isInner : inner ∈ fields.map Prod.snd) :
    ∃ content, ofJson content = .ok inner := by
  obtain ⟨⟨name, _⟩, isField, rfl⟩ := List.mem_map.mp isInner
  cases content with
  | object members =>
      obtain ⟨content, -, isRead⟩ := Decode.exists_mem_of_fields areRead isField
      exact ⟨content, isRead⟩
  | _ => cases areRead

/-- Every schema that a keyword is set to has been read by itself. -/
theorem exists_ofJson_of_settingOf {keyword : Keyword} {content : Json} {setting : Setting}
    (isSetting : Decode.settingOf keyword content = .ok setting) (isInner : inner ∈ setting.inner) :
    ∃ content, ofJson content = .ok inner := by
  rw [Decode.settingOf_eq] at isSetting
  cases keyword with
  | definitions | properties | optionalProperties =>
      obtain ⟨fields, areRead, rfl⟩ := Attempt.map_eq_ok_iff.mp isSetting
      exact exists_ofJson_of_schemas areRead isInner
  | elements | values =>
      obtain ⟨item, isRead, rfl⟩ := Attempt.map_eq_ok_iff.mp isSetting
      obtain rfl := List.mem_singleton.mp isInner
      exact ⟨content, isRead⟩
  | discriminator =>
      obtain ⟨rule, ruleRead, rfl⟩ := Attempt.map_eq_ok_iff.mp isSetting
      cases content with
      | object members =>
          obtain ⟨-, ⟨-, unset⟩ | ⟨mapping, -, areRead⟩⟩ :=
            Decode.parts_of_discriminatorMembers ruleRead
          · cases unset
          · exact exists_ofJson_of_schemas areRead isInner
      | _ => cases ruleRead
  | enum =>
      obtain ⟨texts, -, isSetting⟩ := Attempt.bind_eq_ok_iff.mp isSetting
      obtain ⟨checked, -, isSetting⟩ := Attempt.bind_eq_ok_iff.mp isSetting
      cases isSetting
      cases isInner
  | ref | type | additionalProperties =>
      obtain ⟨read, -, rfl⟩ := Attempt.map_eq_ok_iff.mp isSetting
      cases isInner

/-- An enumeration that is read has values, and none of them twice. -/
theorem enum_of_ofJson (isRead : ofJson value = .ok schema) {texts : List String}
    (isSet : schema.enum = some texts) : texts ≠ [] ∧ texts.Nodup := by
  obtain ⟨content, isSetting⟩ := @exists_settingOf _ _ isRead .enum (.enum texts)
    (by rw [setting?, isSet]; rfl)
  rw [Decode.settingOf_eq] at isSetting
  obtain ⟨listed, -, isSetting⟩ := Attempt.bind_eq_ok_iff.mp isSetting
  obtain ⟨checked, isChecked, isSetting⟩ := Attempt.bind_eq_ok_iff.mp isSetting
  obtain ⟨inhabited, distinct, same⟩ := Decode.enumeration_eq_ok_iff.mp isChecked
  cases isSetting
  rw [same]
  exact ⟨inhabited, distinct⟩

/-- What every schema has that is read, the whole tree has. -/
theorem forall_contains_of_ofJson {property : Schema → Prop}
    (ofRead : ∀ value read, ofJson value = .ok read → property read)
    (isRead : ofJson value = .ok schema) :
    ∀ place node, schema.Contains place node → property node := by
  induction schema using holdsInduction generalizing value with
  | step schema inductionHypothesis =>
      refine forall_contains_iff.mpr ⟨ofRead value schema isRead, fun inner holds => ?_⟩
      obtain ⟨keyword, setting, isSet, isInner⟩ := holds
      obtain ⟨content, isSetting⟩ := exists_settingOf isRead isSet
      obtain ⟨content, innerRead⟩ := exists_ofJson_of_settingOf isSetting isInner
      exact inductionHypothesis inner ⟨keyword, setting, isSet, isInner⟩ innerRead

theorem distinctValues_of_ofJson (isRead : ofJson value = .ok schema) : schema.DistinctValues := by
  refine forall_contains_of_ofJson (fun value read isRead => ?_) isRead
  cases isSet : read.enum with
  | none => exact List.nodup_nil
  | some texts => exact (enum_of_ofJson isRead isSet).2

theorem inhabitedEnums_of_ofJson (isRead : ofJson value = .ok schema) : schema.InhabitedEnums :=
  forall_contains_of_ofJson (fun _ _ isRead isSet => (enum_of_ofJson isRead isSet).1 rfl) isRead

end Tree

end FormSchema.Schema
