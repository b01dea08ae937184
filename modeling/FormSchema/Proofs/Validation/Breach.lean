import FormSchema.Proofs.Schema.Document
import FormSchema.Proofs.Validation.Conformance

/-!
# Rules that values break

`Breach` says that a value breaks one of the rules that a schema has by itself.  It names two
places: that of what is to blame, from the value on, and that of the rule, from the schema on.
Both exist: the one in the value, and the other in the document of the schema.

Whatever an expansion rejects is a breach, and whatever it visits is a schema directly inside
together with the value that lies at the suffix.
-/

namespace FormSchema

/-- A value breaks a rule of a schema that is chosen by a tag, if any.  A member that is not
allowed and a tag of the wrong kind or without a branch are to blame themselves; in all other
cases the value is. -/
inductive Breach (schema : Schema) (tag : Option String) :
    Json → List String → List String → Prop where
  | type {primitive : Primitive} {value : Json} (shaped : schema.shape = .type primitive)
      (refused : primitive.accepts value = false) :
      Breach schema tag value [] ["type"]
  | enum {texts : List String} {value : Json} (shaped : schema.shape = .enum texts)
      (unlisted : ∀ text ∈ texts, value ≠ .string text) :
      Breach schema tag value [] ["enum"]
  | elements {item : Schema} {value : Json} (shaped : schema.shape = .elements item)
      (otherKind : ∀ items, value ≠ .array items) :
      Breach schema tag value [] ["elements"]
  /-- A value that is no object breaks the rule on required properties, if there is one. -/
  | properties {required : List (String × Schema)} {optional : Option (List (String × Schema))}
      {additional : Bool} {value : Json}
      (shaped : schema.shape = .properties (some required) optional additional)
      (otherKind : ∀ members, value ≠ .object members) :
      Breach schema tag value [] ["properties"]
  | optionalProperties {optional : List (String × Schema)} {additional : Bool} {value : Json}
      (shaped : schema.shape = .properties none (some optional) additional)
      (otherKind : ∀ members, value ≠ .object members) :
      Breach schema tag value [] ["optionalProperties"]
  | missing {required : List (String × Schema)} {optional : Option (List (String × Schema))}
      {additional : Bool} {members : List (String × Json)} {name : String}
      (shaped : schema.shape = .properties (some required) optional additional)
      (isRequired : name ∈ Members.names required) (absent : name ∉ Members.names members) :
      Breach schema tag (.object members) [] ["properties", name]
  | undeclared {required optional : Option (List (String × Schema))}
      {members : List (String × Json)} {name : String}
      (shaped : schema.shape = .properties required optional false)
      (isMember : name ∈ Members.names members)
      (notRequired : name ∉ Members.names (required.getD []))
      (notOptional : name ∉ Members.names (optional.getD [])) (notTag : tag ≠ some name) :
      Breach schema tag (.object members) [name] []
  | values {member : Schema} {value : Json} (shaped : schema.shape = .values member)
      (otherKind : ∀ members, value ≠ .object members) :
      Breach schema tag value [] ["values"]
  | discriminator {rule : Discriminator Schema} {value : Json}
      (shaped : schema.shape = .discriminator rule)
      (otherKind : ∀ members, value ≠ .object members) :
      Breach schema tag value [] ["discriminator"]
  | untagged {rule : Discriminator Schema} {members : List (String × Json)}
      (shaped : schema.shape = .discriminator rule)
      (absent : rule.tag ∉ Members.names members) :
      Breach schema tag (.object members) [] ["discriminator", "tag"]
  | tagOtherKind {rule : Discriminator Schema} {members : List (String × Json)} {tagValue : Json}
      (shaped : schema.shape = .discriminator rule)
      (tagged : members.lookup rule.tag = some tagValue)
      (otherKind : ∀ text, tagValue ≠ .string text) :
      Breach schema tag (.object members) [rule.tag] ["discriminator", "tag"]
  | unmapped {rule : Discriminator Schema} {members : List (String × Json)} {tagValue : String}
      (shaped : schema.shape = .discriminator rule)
      (tagged : members.lookup rule.tag = some (.string tagValue))
      (noBranch : tagValue ∉ Members.names rule.mapping) :
      Breach schema tag (.object members) [rule.tag] ["discriminator", "mapping"]

section Places

variable {schema : Schema} {tag : Option String} {value : Json} {suffix rule : List String}

/-- What is to blame for a breach lies in the value. -/
theorem Breach.exists_at? (breach : Breach schema tag value suffix rule) :
    ∃ blamed, value.at? suffix = some blamed := by
  cases breach with
  | undeclared _ isMember =>
      rw [Json.at?_singleton, Json.step?]
      exact Option.isSome_iff_exists.mp (Members.has_iff_mem_names.mpr isMember)
  | tagOtherKind _ tagged => exact ⟨_, (Json.at?_singleton ..).trans tagged⟩
  | unmapped _ tagged => exact ⟨_, (Json.at?_singleton ..).trans tagged⟩
  | _ => exact ⟨_, rfl⟩

/-- The rule that is broken stands in the document of the schema. -/
theorem Breach.exists_at?_toJson (breach : Breach schema tag value suffix rule)
    (isProper : schema.toJson.proper = true) :
    ∃ content, schema.toJson.at? rule = some content := by
  have isWritten (keyword : Keyword) {content : Json}
      (isSet : schema.written keyword = some content) :
      ∃ content, schema.toJson.at? [keyword.name] = some content :=
    ⟨content, schema.at?_of_written keyword isSet⟩
  cases breach with
  | type shaped =>
      exact isWritten .type (by rw [Schema.written, Schema.type_of_shape shaped, Option.map_some])
  | enum shaped =>
      exact isWritten .enum (by rw [Schema.written, Schema.enum_of_shape shaped, Option.map_some])
  | elements shaped =>
      exact isWritten .elements
        (by rw [Schema.written, Schema.elements_of_shape shaped, Option.map_some])
  | values shaped =>
      exact isWritten .values
        (by rw [Schema.written, Schema.values_of_shape shaped, Option.map_some])
  | discriminator shaped =>
      exact isWritten .discriminator
        (by rw [Schema.written, Schema.discriminator_of_shape shaped, Option.map_some])
  | properties shaped =>
      exact isWritten .properties
        (by rw [Schema.written, (Schema.properties_of_shape shaped).1, Option.map_some])
  | optionalProperties shaped =>
      exact isWritten .optionalProperties
        (by rw [Schema.written, (Schema.properties_of_shape shaped).2.1, Option.map_some])
  | missing shaped isRequired =>
      obtain ⟨⟨name, property⟩, isField, rfl⟩ := List.mem_map.mp isRequired
      have step := Schema.Child.required (Schema.properties_of_shape shaped).1 isField
      exact ⟨_, step.at?_toJson isProper⟩
  | undeclared => exact ⟨_, rfl⟩
  | untagged shaped =>
      exact ⟨_, Schema.at?_discriminator (Schema.discriminator_of_shape shaped) "tag"⟩
  | tagOtherKind shaped =>
      exact ⟨_, Schema.at?_discriminator (Schema.discriminator_of_shape shaped) "tag"⟩
  | unmapped shaped =>
      exact ⟨_, Schema.at?_discriminator (Schema.discriminator_of_shape shaped) "mapping"⟩

end Places

section Expansion

variable {schema inner : Schema} {value innerValue : Json} {place suffix : List String}
  {tag innerTag : Option String}

/-- What is rejected about the properties of an object is missing or not declared. -/
theorem breach_of_reject_mem_expandProperties {required optional : Option (List (String × Schema))}
    {additional : Bool} {members : List (String × Json)} {rejected : List String}
    (shaped : schema.shape = .properties required optional additional)
    (isTask : .reject suffix rejected ∈
      Shape.expandProperties required optional additional members place tag) :
    ∃ rule, rejected = place ++ rule ∧ Breach schema tag (.object members) suffix rule := by
  obtain ⟨name, property, isField, same⟩ | ⟨name, property, found, -, -, same⟩ |
    ⟨name, rfl, isMember, notRequired, notOptional, notTag, same⟩ :=
    Shape.mem_expandProperties isTask
  · obtain ⟨found, -, expanded⟩ | ⟨absent, expanded⟩ :=
      Shape.expandRequired_cases members place name property
    · cases same.trans expanded
    · cases same.trans expanded
      cases required with
      | none => cases isField
      | some fields =>
          exact ⟨_, rfl, .missing shaped (List.mem_map_of_mem (f := Prod.fst) isField)
            (Members.lookup_eq_none_iff.mp absent)⟩
  · cases same
  · cases same
    rw [← Bool.not_eq_true, Shape.declares_iff] at notRequired notOptional
    exact ⟨[], (List.append_nil place).symm,
      .undeclared shaped isMember notRequired notOptional notTag⟩

/-- What is rejected about the branches of an object is its tag. -/
theorem breach_of_reject_eq_expandBranches {rule : Discriminator Schema}
    {members : List (String × Json)} {rejected : List String}
    (shaped : schema.shape = .discriminator rule)
    (isTask : .reject suffix rejected = Shape.expandBranches rule members place) :
    ∃ rule, rejected = place ++ rule ∧ Breach schema tag (.object members) suffix rule := by
  rw [Shape.expandBranches] at isTask
  split at isTask
  · rename_i absent
    cases isTask
    exact ⟨_, rfl, .untagged shaped (Members.lookup_eq_none_iff.mp absent)⟩
  · rename_i tagValue tagged
    split at isTask
    · cases isTask
    · rename_i noBranch
      cases isTask
      exact ⟨_, rfl, .unmapped shaped tagged (Members.lookup_eq_none_iff.mp noBranch)⟩
  · rename_i tagValue otherKind tagged
    cases isTask
    refine ⟨_, rfl, .tagOtherKind shaped tagged ?_⟩
    rintro text rfl
    exact otherKind text rfl

/-- Whatever an expansion rejects is a breach. -/
theorem breach_of_reject_mem_expand {rejected : List String}
    (isTask : .reject suffix rejected ∈ schema.shape.expand value place tag) :
    ∃ rule, rejected = place ++ rule ∧ Breach schema tag value suffix rule := by
  cases shaped : schema.shape with
  | empty => simp [shaped, Shape.expand] at isTask
  | ref name => simp [shaped, Shape.expand] at isTask
  | type primitive =>
      simp only [shaped, Shape.expand] at isTask
      split at isTask
      · cases isTask
      · rename_i refused
        cases List.mem_singleton.mp isTask
        exact ⟨_, rfl, .type shaped (Bool.eq_false_iff.mpr refused)⟩
  | enum texts =>
      simp only [shaped, Shape.expand] at isTask
      split at isTask
      · split at isTask
        · cases isTask
        · rename_i unlisted
          cases List.mem_singleton.mp isTask
          refine ⟨_, rfl, .enum shaped ?_⟩
          rintro text isListed ⟨⟩
          exact unlisted (List.contains_iff_mem.mpr isListed)
      · rename_i otherKind
        cases List.mem_singleton.mp isTask
        exact ⟨_, rfl, .enum shaped fun text _ => otherKind text⟩
  | elements item =>
      simp only [shaped, Shape.expand] at isTask
      split at isTask
      · obtain ⟨_, -, same⟩ := List.mem_map.mp isTask
        cases same
      · rename_i otherKind
        cases List.mem_singleton.mp isTask
        exact ⟨_, rfl, .elements shaped otherKind⟩
  | properties required optional additional =>
      simp only [shaped, Shape.expand] at isTask
      split at isTask
      · exact breach_of_reject_mem_expandProperties shaped isTask
      · rename_i otherKind
        cases List.mem_singleton.mp isTask
        cases required with
        | some required => exact ⟨_, rfl, .properties shaped otherKind⟩
        | none =>
            obtain ⟨optional, rfl⟩ := Schema.optional_of_shape shaped
            exact ⟨_, rfl, .optionalProperties shaped otherKind⟩
  | values member =>
      simp only [shaped, Shape.expand] at isTask
      split at isTask
      · obtain ⟨_, -, same⟩ := List.mem_map.mp isTask
        cases same
      · rename_i otherKind
        cases List.mem_singleton.mp isTask
        exact ⟨_, rfl, .values shaped otherKind⟩
  | discriminator rule =>
      simp only [shaped, Shape.expand] at isTask
      split at isTask
      · exact breach_of_reject_eq_expandBranches shaped (List.mem_singleton.mp isTask)
      · rename_i otherKind
        cases List.mem_singleton.mp isTask
        exact ⟨_, rfl, .discriminator shaped otherKind⟩

/-- Whatever an expansion visits is a schema directly inside.  What it is visited for lies in
the value, if no name is ambiguous there. -/
theorem child_of_visit_mem_expand {innerPlace : List String}
    (isTask : .visit inner innerValue suffix innerPlace innerTag ∈
      schema.shape.expand value place tag) :
    ∃ tokens, innerPlace = place ++ tokens ∧ schema.Child tokens innerTag inner ∧
      (value.proper = true → value.at? suffix = some innerValue) := by
  cases shaped : schema.shape with
  | empty => simp [shaped, Shape.expand] at isTask
  | ref name => simp [shaped, Shape.expand] at isTask
  | type primitive => simp [shaped, Shape.expand] at isTask
  | enum texts => cases value <;> simp [shaped, Shape.expand] at isTask
  | elements item =>
      rw [shaped] at isTask
      cases value <;> simp only [Shape.expand, List.mem_singleton, reduceCtorEq] at isTask
      obtain ⟨⟨_, position⟩, isItem, same⟩ := List.mem_map.mp isTask
      cases same
      refine ⟨_, rfl, .elements (Schema.elements_of_shape shaped), fun _ => ?_⟩
      rw [Json.at?_singleton, Json.step?, Pointer.index?_toString, Option.bind_some]
      exact List.mk_mem_zipIdx_iff_getElem?.mp isItem
  | properties required optional additional =>
      rw [shaped] at isTask
      cases value <;> simp only [Shape.expand, List.mem_singleton, reduceCtorEq] at isTask
      rename_i members
      obtain ⟨requiredSet, optionalSet, -⟩ := Schema.properties_of_shape shaped
      obtain ⟨name, property, isField, same⟩ | ⟨name, property, found, isField, present, same⟩ |
        ⟨name, -, -, -, -, -, same⟩ := Shape.mem_expandProperties isTask
      · obtain ⟨found, present, expanded⟩ | ⟨-, expanded⟩ :=
          Shape.expandRequired_cases members place name property
        · cases same.trans expanded
          cases required with
          | none => cases isField
          | some fields =>
              exact ⟨_, rfl, .required requiredSet isField,
                fun _ => (Json.at?_singleton ..).trans present⟩
        · cases same.trans expanded
      · cases same
        cases optional with
        | none => cases isField
        | some fields =>
            exact ⟨_, rfl, .optional optionalSet isField,
              fun _ => (Json.at?_singleton ..).trans present⟩
      · cases same
  | values member =>
      rw [shaped] at isTask
      cases value <;> simp only [Shape.expand, List.mem_singleton, reduceCtorEq] at isTask
      obtain ⟨⟨name, _⟩, isMember, same⟩ := List.mem_map.mp isTask
      cases same
      refine ⟨_, rfl, .values (Schema.values_of_shape shaped), fun isProper => ?_⟩
      have found := Members.lookup_of_mem (Json.proper_object_iff.mp isProper).1 isMember
      exact (Json.at?_singleton ..).trans found
  | discriminator rule =>
      rw [shaped] at isTask
      cases value <;> simp only [Shape.expand, List.mem_singleton, reduceCtorEq] at isTask
      unfold Shape.expandBranches at isTask
      split at isTask <;> try cases isTask
      split at isTask <;> cases isTask
      rename_i mapped
      exact ⟨_, rfl, .branch (Schema.discriminator_of_shape shaped)
        (Members.mem_of_lookup mapped), fun _ => rfl⟩

end Expansion

end FormSchema
