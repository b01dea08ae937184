import FormSchema.Proofs.Decoding.Yields
import FormSchema.Proofs.Schema.Document
import FormSchema.Schema.Decode

/-!
# Schemas that are read from values

A schema that is read from a proper value has a proper document: no keyword that holds several
schemas repeats a name.  A schema has a proper document exactly if what is written for each of its
keywords is proper, so it is enough to look at what each keyword is set to.
-/

namespace FormSchema

namespace Setting

/-- The keyword that is set. -/
def keyword : Setting → Keyword
  | .definitions _ => .definitions
  | .ref _ => .ref
  | .type _ => .type
  | .enum _ => .enum
  | .elements _ => .elements
  | .properties _ => .properties
  | .optionalProperties _ => .optionalProperties
  | .additionalProperties _ => .additionalProperties
  | .values _ => .values
  | .discriminator _ => .discriminator

/-- The value that is written for the keyword that is set. -/
def written : Setting → Json
  | .definitions fields => .object (Schema.fieldsToJson fields)
  | .ref name => .string name
  | .type primitive => .string primitive.name
  | .enum texts => .ofStrings texts
  | .elements item => item.toJson
  | .properties fields => .object (Schema.fieldsToJson fields)
  | .optionalProperties fields => .object (Schema.fieldsToJson fields)
  | .additionalProperties allowed => .bool allowed
  | .values member => member.toJson
  | .discriminator rule =>
      .object [("tag", .string rule.tag), ("mapping", .object (Schema.fieldsToJson rule.mapping))]

/-- A discriminator is written properly if its mapping is. -/
theorem proper_discriminator {rule : Discriminator Schema}
    (mappingProper : (Json.object (Schema.fieldsToJson rule.mapping)).proper = true) :
    (Setting.discriminator rule).written.proper = true := by
  refine Json.proper_object_iff.mpr ⟨(by decide : ["tag", "mapping"].Nodup), ?_⟩
  intro name content isMember
  rcases List.mem_cons.mp isMember with same | isMember
  · cases same
    rfl
  · cases List.mem_singleton.mp isMember
    exact mappingProper

end Setting

namespace Schema

/-- Setting a keyword changes what is written for it, and for no other. -/
theorem written_set (schema : Schema) (setting : Setting) (keyword : Keyword) :
    (schema.set setting).written keyword =
      if keyword = setting.keyword then some setting.written else schema.written keyword := by
  cases setting <;> cases keyword <;> rfl

/-! ## Proper documents -/

theorem names_flatMap_memberOf (keywords : List Keyword) (values : Keyword → Option Json) :
    (Members.names (keywords.flatMap fun keyword =>
      memberOf keyword.name (values keyword))).Sublist (keywords.map Keyword.name) := by
  induction keywords with
  | nil => exact List.Sublist.refl _
  | cons keyword rest inductionHypothesis =>
      rw [List.flatMap_cons, List.map_cons]
      cases values keyword with
      | none => exact inductionHypothesis.cons _
      | some value => exact inductionHypothesis.cons_cons _

/-- Whatever stands in a document is written for a keyword. -/
theorem exists_written_of_mem {schema : Schema} {keywords : List Keyword} {name : String}
    {content : Json}
    (isMember : (name, content) ∈ keywords.flatMap fun keyword =>
      memberOf keyword.name (schema.written keyword)) :
    ∃ keyword, schema.written keyword = some content := by
  obtain ⟨keyword, -, isWritten⟩ := List.mem_flatMap.mp isMember
  cases written : schema.written keyword with
  | none =>
      rw [written] at isWritten
      cases isWritten
  | some value =>
      rw [written] at isWritten
      cases List.mem_singleton.mp isWritten
      exact ⟨keyword, written⟩

/-- A document is proper if what is written for each keyword is. -/
theorem proper_toJson_iff {schema : Schema} :
    schema.toJson.proper = true ↔
      ∀ keyword content, schema.written keyword = some content → content.proper = true := by
  constructor
  · intro isProper keyword content isWritten
    exact Json.proper_of_step? isProper ((step?_toJson schema keyword).trans isWritten)
  · intro allProper
    rw [toJson_eq, Json.proper_object_iff]
    constructor
    · exact (by decide : (Keyword.all.map Keyword.name).Nodup).sublist
        (names_flatMap_memberOf Keyword.all schema.written)
    · intro name content isMember
      obtain ⟨keyword, isWritten⟩ := exists_written_of_mem isMember
      exact allProper keyword content isWritten

theorem proper_empty : (toJson {}).proper = true := by
  have isEmpty : toJson {} = .object [] := rfl
  rw [isEmpty]
  rfl

theorem proper_set {schema : Schema} {setting : Setting} (isProper : schema.toJson.proper = true)
    (settingProper : setting.written.proper = true) :
    (schema.set setting).toJson.proper = true := by
  rw [proper_toJson_iff] at isProper ⊢
  intro keyword content isWritten
  rw [written_set] at isWritten
  split at isWritten
  · cases isWritten
    exact settingProper
  · exact isProper keyword content isWritten

/-- The members for named schemas are the documents of the schemas. -/
theorem exists_field_of_mem {fields : List (String × Schema)} {name : String} {content : Json}
    (isMember : (name, content) ∈ fieldsToJson fields) :
    ∃ inner, (name, inner) ∈ fields ∧ inner.toJson = content := by
  rw [fieldsToJson_eq_mapFields] at isMember
  obtain ⟨⟨_, inner⟩, isField, same⟩ := List.mem_map.mp isMember
  cases same
  exact ⟨inner, isField, rfl⟩

theorem proper_fields_iff {fields : List (String × Schema)} :
    (Json.object (fieldsToJson fields)).proper = true ↔
      (Members.names fields).Nodup ∧
        ∀ name inner, (name, inner) ∈ fields → inner.toJson.proper = true := by
  rw [Json.proper_object_iff, names_fieldsToJson]
  refine and_congr_right fun _ => ?_
  constructor
  · intro allProper name inner isField
    refine allProper name _ ?_
    rw [fieldsToJson_eq_mapFields]
    exact List.mem_map_of_mem (f := fun field => (field.1, toJson field.2)) isField
  · intro allProper name content isMember
    obtain ⟨inner, isField, rfl⟩ := exists_field_of_mem isMember
    exact allProper name inner isField

end Schema

/-! ## Schemas from values -/

namespace Decode

theorem proper_ofStrings (texts : List String) : (Json.ofStrings texts).proper = true := by
  refine Json.proper_array_iff.mpr fun item isItem => ?_
  obtain ⟨text, -, rfl⟩ := List.mem_map.mp isItem
  rfl

theorem under_eq_ok_iff {α : Type} {step : PathStep} {outcome : Except DecodeError α}
    {result : α} : under step outcome = .ok result ↔ outcome = .ok result :=
  Attempt.mapError_eq_ok_iff

/-- The rule of a tagged union. -/
def discriminator : Json → Except DecodeError (Discriminator Schema)
  | .object members => discriminatorMembers none none members
  | other => wrongKind other .discriminatorObject

/-- Each keyword has its own kind of value, whatever value is given. -/
theorem settingOf_eq (keyword : Keyword) (value : Json) :
    settingOf keyword value =
      match keyword with
      | .definitions => Setting.definitions <$> schemas value
      | .properties => Setting.properties <$> schemas value
      | .optionalProperties => Setting.optionalProperties <$> schemas value
      | .elements => Setting.elements <$> Schema.ofJson value
      | .values => Setting.values <$> Schema.ofJson value
      | .discriminator => Setting.discriminator <$> discriminator value
      | .ref => Setting.ref <$> string value
      | .type => Setting.type <$> primitive value
      | .additionalProperties => Setting.additionalProperties <$> boolean value
      | .enum => do return Setting.enum (← enumeration (← strings .sequence value)) := by
  cases keyword <;> cases value <;> rfl

theorem fields_cons (name : String) (value : Json) (rest : List (String × Json)) :
    fields ((name, value) :: rest) = (do
      let schema ← under (.key name) (Schema.ofJson value)
      let others ← fields rest
      return (name, schema) :: others) := by
  cases value <;> rw [fields] <;> first | rfl | rintro _ ⟨⟩

theorem discriminatorMembers_cons (tag : Option String)
    (mapping : Option (List (String × Schema))) (name : String) (value : Json)
    (rest : List (String × Json)) :
    discriminatorMembers tag mapping ((name, value) :: rest) =
      if name = "tag" then do
        let read ← under (.key name) (string value)
        discriminatorMembers (some read) mapping rest
      else if name = "mapping" then do
        let read ← under (.key name) (schemas value)
        discriminatorMembers tag (some read) rest
      else
        discriminatorMembers tag mapping rest := by
  cases value <;> rw [discriminatorMembers] <;> first | rfl | rintro _ ⟨⟩

/-- Named schemas with the names of the members of a proper object have different names. -/
theorem proper_fields_of_names {members : List (String × Json)} {read : List (String × Schema)}
    (isProper : (Json.object members).proper = true)
    (sameNames : Members.names read = Members.names members)
    (readProper : ∀ name inner, (name, inner) ∈ read → inner.toJson.proper = true) :
    (Json.object (Schema.fieldsToJson read)).proper = true := by
  refine Schema.proper_fields_iff.mpr ⟨?_, readProper⟩
  rw [sameNames]
  exact (Json.proper_object_iff.mp isProper).1

/-- What a discriminator object is read as, once its members are. -/
theorem discriminatorOf_eq_ok {tag : Option String} {mapping : Option (List (String × Schema))}
    {rule : Discriminator Schema} (isRead : discriminatorOf tag mapping = .ok rule) :
    mapping = some rule.mapping := by
  cases tag <;> cases mapping <;> cases isRead
  rfl

mutual

/-- Adding keywords from proper values keeps the document of a schema proper. -/
theorem proper_of_keywords {schema result : Schema} {members : List (String × Json)}
    (isProper : schema.toJson.proper = true)
    (membersProper : ∀ name value, (name, value) ∈ members → value.proper = true)
    (isRead : keywords schema members = .ok result) : result.toJson.proper = true := by
  match members with
  | [] =>
      cases isRead
      exact isProper
  | (name, value) :: rest =>
      have restProper (other : String) (inner : Json) (isMember : (other, inner) ∈ rest) :=
        membersProper other inner (List.mem_cons_of_mem _ isMember)
      rw [keywords] at isRead
      split at isRead
      · exact proper_of_keywords isProper restProper isRead
      · obtain ⟨setting, isSetting, isRead⟩ := Attempt.bind_eq_ok_iff.mp isRead
        have settingProper := proper_of_settingOf (membersProper name value List.mem_cons_self)
          (under_eq_ok_iff.mp isSetting)
        exact proper_of_keywords (Schema.proper_set isProper settingProper) restProper isRead
termination_by (sizeOf members, 0)

/-- What a keyword is set to by a proper value is proper. -/
theorem proper_of_settingOf {keyword : Keyword} {value : Json} {setting : Setting}
    (isProper : value.proper = true) (isRead : settingOf keyword value = .ok setting) :
    setting.written.proper = true := by
  rw [settingOf_eq] at isRead
  cases keyword with
  | ref =>
      obtain ⟨name, -, rfl⟩ := Attempt.map_eq_ok_iff.mp isRead
      rfl
  | type =>
      obtain ⟨primitive, -, rfl⟩ := Attempt.map_eq_ok_iff.mp isRead
      rfl
  | additionalProperties =>
      obtain ⟨allowed, -, rfl⟩ := Attempt.map_eq_ok_iff.mp isRead
      rfl
  | enum =>
      obtain ⟨texts, -, isRead⟩ := Attempt.bind_eq_ok_iff.mp isRead
      obtain ⟨checked, -, isRead⟩ := Attempt.bind_eq_ok_iff.mp isRead
      cases isRead
      exact proper_ofStrings checked
  | definitions | properties | optionalProperties =>
      obtain ⟨fields, areRead, rfl⟩ := Attempt.map_eq_ok_iff.mp isRead
      exact proper_of_schemas isProper areRead
  | elements | values =>
      obtain ⟨inner, innerRead, rfl⟩ := Attempt.map_eq_ok_iff.mp isRead
      exact proper_of_ofJson isProper innerRead
  | discriminator =>
      obtain ⟨rule, ruleRead, rfl⟩ := Attempt.map_eq_ok_iff.mp isRead
      cases value with
      | object members =>
          have noMapping (fields : List (String × Schema)) (same : none = some fields) :
              (Json.object (Schema.fieldsToJson fields)).proper = true := by cases same
          exact Setting.proper_discriminator (proper_of_discriminatorMembers noMapping
            (Json.proper_object_iff.mp isProper).2 ruleRead)
      | _ => cases ruleRead
termination_by (sizeOf value, 1)

/-- Named schemas from a proper object are written properly. -/
theorem proper_of_schemas {value : Json} {read : List (String × Schema)}
    (isProper : value.proper = true) (isRead : schemas value = .ok read) :
    (Json.object (Schema.fieldsToJson read)).proper = true := by
  cases value with
  | object members =>
      obtain ⟨sameNames, readProper⟩ :=
        proper_of_fields (Json.proper_object_iff.mp isProper).2 isRead
      exact proper_fields_of_names isProper sameNames readProper
  | _ => cases isRead
termination_by (sizeOf value, 0)

/-- Named schemas from proper values have the names of the members and proper documents. -/
theorem proper_of_fields {members : List (String × Json)} {read : List (String × Schema)}
    (membersProper : ∀ name value, (name, value) ∈ members → value.proper = true)
    (isRead : fields members = .ok read) :
    Members.names read = Members.names members ∧
      ∀ name inner, (name, inner) ∈ read → inner.toJson.proper = true := by
  match members with
  | [] =>
      cases isRead
      exact ⟨rfl, fun _ _ isField => absurd isField List.not_mem_nil⟩
  | (name, value) :: rest =>
      rw [fields_cons] at isRead
      obtain ⟨schema, isSchema, isRead⟩ := Attempt.bind_eq_ok_iff.mp isRead
      obtain ⟨others, isOthers, isRead⟩ := Attempt.bind_eq_ok_iff.mp isRead
      cases isRead
      obtain ⟨sameNames, othersProper⟩ := proper_of_fields
        (fun other inner isMember => membersProper other inner (List.mem_cons_of_mem _ isMember))
        isOthers
      refine ⟨congrArg (name :: ·) sameNames, ?_⟩
      rintro other inner isField
      rcases List.mem_cons.mp isField with same | isField
      · cases same
        exact proper_of_ofJson (membersProper name value List.mem_cons_self)
          (under_eq_ok_iff.mp isSchema)
      · exact othersProper other inner isField
termination_by (sizeOf members, 0)

/-- A schema from a proper value has a proper document. -/
theorem proper_of_ofJson {value : Json} {schema : Schema} (isProper : value.proper = true)
    (isRead : Schema.ofJson value = .ok schema) : schema.toJson.proper = true := by
  cases value with
  | object members =>
      exact proper_of_keywords Schema.proper_empty (Json.proper_object_iff.mp isProper).2 isRead
  | _ => cases isRead
termination_by (sizeOf value, 0)

/-- The schemas of a discriminator object with proper members are written properly. -/
theorem proper_of_discriminatorMembers {tag : Option String}
    {mapping : Option (List (String × Schema))} {members : List (String × Json)}
    {rule : Discriminator Schema}
    (mappingProper : ∀ fields, mapping = some fields →
      (Json.object (Schema.fieldsToJson fields)).proper = true)
    (membersProper : ∀ name value, (name, value) ∈ members → value.proper = true)
    (isRead : discriminatorMembers tag mapping members = .ok rule) :
    (Json.object (Schema.fieldsToJson rule.mapping)).proper = true := by
  match members with
  | [] => exact mappingProper _ (discriminatorOf_eq_ok isRead)
  | (name, value) :: rest =>
      have restProper (other : String) (inner : Json) (isMember : (other, inner) ∈ rest) :=
        membersProper other inner (List.mem_cons_of_mem _ isMember)
      rw [discriminatorMembers_cons] at isRead
      split at isRead
      · obtain ⟨read, -, isRead⟩ := Attempt.bind_eq_ok_iff.mp isRead
        exact proper_of_discriminatorMembers mappingProper restProper isRead
      · split at isRead
        · obtain ⟨read, isSchemas, isRead⟩ := Attempt.bind_eq_ok_iff.mp isRead
          have readProper := proper_of_schemas (membersProper name value List.mem_cons_self)
            (under_eq_ok_iff.mp isSchemas)
          refine proper_of_discriminatorMembers ?_ restProper isRead
          rintro _ ⟨⟩
          exact readProper
        · exact proper_of_discriminatorMembers mappingProper restProper isRead
termination_by (sizeOf members, 0)

end

end Decode

end FormSchema
