import FormSchema.Proofs.Schema.Grammar

/-!
# The normal form of a schema document

In the normal form of a document there are only members that count, and a type is its name.
Everything else is as it was: names of the author's choice and their order, and the order of
keywords.

Writing a schema that was read gives this normal form, with the keywords of its objects and the
two members of its discriminators in an order of their own.
-/

namespace FormSchema

namespace Json

mutual

/-- The value without the members that do not count, and with every type as a name. -/
def normal : Role → Json → Json
  | .schema, .object members => .object (normalMembers .schema members)
  | .schemas, .object members => .object (normalMembers .schemas members)
  | .discriminator, .object members => .object (normalMembers .discriminator members)
  | .type, .object [(name, .null)] => .string name
  | _, value => value

/-- The members that count, each in its normal form. -/
def normalMembers (role : Role) : List (String × Json) → List (String × Json)
  | [] => []
  | (name, value) :: rest =>
      match role.inside name with
      | some inner => (name, value.normal inner) :: normalMembers role rest
      | none => normalMembers role rest

end

/-- A member that counts, in its normal form. -/
def normalMember (role : Role) (name : String) (value : Json) : Option (String × Json) :=
  (role.inside name).map fun inner => (name, value.normal inner)

theorem normalMembers_eq (role : Role) (members : List (String × Json)) :
    normalMembers role members =
      members.filterMap fun member => normalMember role member.1 member.2 := by
  induction members with
  | nil => rw [normalMembers, List.filterMap_nil]
  | cons member rest inductionHypothesis =>
      obtain ⟨name, value⟩ := member
      rw [normalMembers, List.filterMap_cons, inductionHypothesis, normalMember]
      cases role.inside name <;> rfl

end Json

/-- Two documents differ in nothing but the order of members in the objects whose members are
keywords. -/
inductive Rearranged : Role → Json → Json → Prop where
  | refl (role : Role) (value : Json) : Rearranged role value value
  | trans {role : Role} {first second third : Json} (before : Rearranged role first second)
      (after : Rearranged role second third) : Rearranged role first third
  | members {role : Role} (keyed : role.keyed = true) {left right : List (String × Json)}
      (sameMembers : left.Perm right) : Rearranged role (.object left) (.object right)
  | inside {role inner : Role} {name : String} (counts : role.inside name = some inner)
      {value other : Json} (rearranged : Rearranged inner value other)
      (before after : List (String × Json)) :
      Rearranged role (.object (before ++ (name, value) :: after))
        (.object (before ++ (name, other) :: after))

/-- Members have the same name, which counts, and values that are the same but for the order of
keywords. -/
def Role.Rearranges (role : Role) (member other : String × Json) : Prop :=
  member.1 = other.1 ∧
    ∃ inner, role.inside member.1 = some inner ∧ Rearranged inner member.2 other.2

/-- Every member of an object may be rearranged inside. -/
theorem Rearranged.each {role : Role} {left right : List (String × Json)}
    (each : List.Forall₂ role.Rearranges left right) :
    Rearranged role (.object left) (.object right) := by
  suffices behind : ∀ before, Rearranged role (.object (before ++ left)) (.object (before ++ right))
    from behind []
  induction each with
  | nil => exact fun before => .refl role _
  | @cons member other rest others related _ inductionHypothesis =>
      obtain ⟨name, value⟩ := member
      obtain ⟨_, document⟩ := other
      obtain ⟨rfl, inner, counts, rearranged⟩ := related
      intro before
      refine .trans (.inside counts rearranged before rest) ?_
      have further := inductionHypothesis (before ++ [(name, document)])
      rwa [List.append_assoc, List.append_assoc] at further

/-! ## Members by name -/

/-- Where no name is repeated, the members that count are those that are found under the names
that count. -/
theorem normalMembers_perm {role : Role} {names : List String} (distinctNames : names.Nodup)
    (complete : ∀ name inner, role.inside name = some inner → name ∈ names)
    {members : List (String × Json)} (distinct : (Members.names members).Nodup) :
    (Json.normalMembers role members).Perm
      (names.filterMap fun name =>
        (members.lookup name).bind fun value => Json.normalMember role name value) := by
  rw [Json.normalMembers_eq]
  have nameOf {name : String} {value : Json} {entry : String × Json}
      (isEntry : Json.normalMember role name value = some entry) : entry.1 = name := by
    obtain ⟨inner, -, rfl⟩ := Option.map_eq_some_iff.mp isEntry
    rfl
  refine (List.perm_ext_iff_of_nodup ?_ ?_).mpr fun entry => ?_
  · refine List.Pairwise.filterMap _ ?_ (List.pairwise_map.mp distinct)
    rintro first second different entry isEntry _ isOther rfl
    exact different ((nameOf isEntry).symm.trans (nameOf isOther))
  · refine distinctNames.filterMap fun first second entry isEntry isOther => ?_
    obtain ⟨value, -, isEntry⟩ := Option.bind_eq_some_iff.mp isEntry
    obtain ⟨other, -, isOther⟩ := Option.bind_eq_some_iff.mp isOther
    exact (nameOf isEntry).symm.trans (nameOf isOther)
  · simp only [List.mem_filterMap, Option.bind_eq_some_iff]
    constructor
    · rintro ⟨⟨name, value⟩, isMember, isEntry⟩
      obtain ⟨inner, counts, rfl⟩ := Option.map_eq_some_iff.mp isEntry
      exact ⟨name, complete name inner counts, value, Members.lookup_of_mem distinct isMember,
        isEntry⟩
    · rintro ⟨name, -, value, isFound, isEntry⟩
      exact ⟨(name, value), Members.mem_of_lookup isFound, isEntry⟩

/-! ## What is written for what was read -/

/-- Reading a value as what it stands for, and writing that, gives a document. -/
def Role.Restores (value document : Json) : Role → Prop
  | schema => ∃ read, Schema.ofJson value = .ok read ∧ document = read.toJson
  | schemas => ∃ read, Decode.schemas value = .ok read ∧
      document = .object (Schema.fieldsToJson read)
  | discriminator => ∃ rule, Decode.discriminator value = .ok rule ∧
      document = (Setting.discriminator rule).written
  | type => ∃ primitive, Decode.primitive value = .ok primitive ∧
      document = .string primitive.name
  | _ => document = value

/-- What is written for a keyword restores the value that it was read from. -/
theorem Decode.restores_of_settingOf {keyword : Keyword} {value : Json} {setting : Setting}
    (isRead : settingOf keyword value = .ok setting) :
    keyword.role.Restores value setting.written := by
  rw [settingOf_eq] at isRead
  cases keyword with
  | enum =>
      obtain ⟨texts, isTexts, isRead⟩ := Attempt.bind_eq_ok_iff.mp isRead
      obtain ⟨checked, isChecked, isRead⟩ := Attempt.bind_eq_ok_iff.mp isRead
      obtain ⟨-, -, same⟩ := enumeration_eq_ok_iff.mp isChecked
      cases isRead
      rw [same]
      exact (strings_eq_ok_iff.mp isTexts).symm
  | ref =>
      obtain ⟨text, isText, rfl⟩ := Attempt.map_eq_ok_iff.mp isRead
      exact (string_eq_ok_iff.mp isText).symm
  | additionalProperties =>
      obtain ⟨truth, isTruth, rfl⟩ := Attempt.map_eq_ok_iff.mp isRead
      exact (boolean_eq_ok_iff.mp isTruth).symm
  | _ =>
      obtain ⟨read, isContent, rfl⟩ := Attempt.map_eq_ok_iff.mp isRead
      exact ⟨read, isContent, rfl⟩

/-- The members of a schema object, by keyword, and those that are written for what they are
read as. -/
theorem keywords_forall₂ {schema : Schema} {members : List (String × Json)}
    (each : ∀ keyword : Keyword,
      (members.lookup keyword.name = none ∧ schema.written keyword = none) ∨
      ∃ value document, members.lookup keyword.name = some value ∧
        schema.written keyword = some document ∧
        Rearranged keyword.role (value.normal keyword.role) document)
    (keywords : List Keyword) :
    List.Forall₂ Role.schema.Rearranges
      ((keywords.map Keyword.name).filterMap fun name =>
        (members.lookup name).bind fun value => Json.normalMember .schema name value)
      (keywords.flatMap fun keyword => Schema.memberOf keyword.name (schema.written keyword)) := by
  induction keywords with
  | nil => exact .nil
  | cons keyword rest inductionHypothesis =>
      have counts := Role.inside_schema_name keyword
      rw [List.map_cons, List.filterMap_cons, List.flatMap_cons]
      obtain ⟨absent, unset⟩ | ⟨value, document, isFound, isWritten, rearranged⟩ := each keyword
      · rw [absent, unset]
        exact inductionHypothesis
      · rw [isFound, isWritten, Option.bind_some, Json.normalMember, counts]
        exact .cons ⟨rfl, keyword.role, counts, rearranged⟩ inductionHypothesis

/-- The members with named schemas, and those that are written for what they are read as. -/
theorem fields_forall₂ {members : List (String × Json)} {read : List (String × Schema)}
    (reads : List.Forall₂ Decode.ReadsField members read)
    (each : ∀ name value inner, (name, value) ∈ members → Schema.ofJson value = .ok inner →
      Rearranged .schema (value.normal .schema) inner.toJson) :
    List.Forall₂ Role.schemas.Rearranges (Json.normalMembers .schemas members)
      (Schema.fieldsToJson read) := by
  induction reads with
  | nil =>
      rw [Json.normalMembers, Schema.fieldsToJson]
      exact .nil
  | @cons member field rest fields readsField _ inductionHypothesis =>
      obtain ⟨name, value⟩ := member
      obtain ⟨_, inner⟩ := field
      obtain ⟨rfl, isRead⟩ := readsField
      rw [Json.normalMembers, Schema.fieldsToJson]
      refine .cons ⟨rfl, .schema, rfl, each name value inner List.mem_cons_self isRead⟩ ?_
      exact inductionHypothesis fun other content inner isMember =>
        each other content inner (List.mem_cons_of_mem _ isMember)

/-- The members of a discriminator object, and those that are written for what it is read as. -/
theorem normalMembers_discriminator_perm {members : List (String × Json)} {tag mapping : Json}
    (distinct : (Members.names members).Nodup) (hasTag : ("tag", tag) ∈ members)
    (hasMapping : ("mapping", mapping) ∈ members) :
    (Json.normalMembers .discriminator members).Perm
      [("tag", tag.normal .string), ("mapping", mapping.normal .schemas)] := by
  have complete (name : String) (inner : Role)
      (counts : Role.discriminator.inside name = some inner) : name ∈ ["tag", "mapping"] := by
    rcases Role.inside_discriminator_eq_some_iff.mp counts with ⟨rfl, -⟩ | ⟨rfl, -⟩
    · exact List.mem_cons_self
    · exact List.mem_cons_of_mem _ List.mem_cons_self
  have byName := normalMembers_perm (by decide) complete distinct
  rwa [List.filterMap_cons, Members.lookup_of_mem distinct hasTag, List.filterMap_cons,
    Members.lookup_of_mem distinct hasMapping] at byName

section Objects

variable {members : List (String × Json)} (distinct : (Members.names members).Nodup)
  (each : ∀ name content, (name, content) ∈ members → ∀ {role : Role} {document : Json},
    role.Restores content document → Rearranged role (content.normal role) document)

include distinct each in
theorem rearranged_of_ofJson {read : Schema} (isRead : Schema.ofJson (.object members) = .ok read) :
    Rearranged .schema ((Json.object members).normal .schema) read.toJson := by
  have complete (name : String) (inner : Role)
      (counts : Role.schema.inside name = some inner) : name ∈ Keyword.all.map Keyword.name := by
    obtain ⟨keyword, rfl, -⟩ := Role.inside_schema_eq_some_iff.mp counts
    exact List.mem_map_of_mem (by cases keyword <;> decide)
  rw [Json.normal, Schema.toJson_eq]
  refine .trans (.members rfl (normalMembers_perm (by decide) complete distinct))
    (.each (keywords_forall₂ (fun keyword => ?_) Keyword.all))
  obtain ⟨absent, unset⟩ | ⟨content, setting, isFound, isSetting, isSet⟩ :=
    Decode.setting?_of_lookup distinct isRead keyword
  · exact .inl ⟨absent, by rw [Schema.written_eq, unset, Option.map_none]⟩
  · exact .inr ⟨content, setting.written, isFound,
      by rw [Schema.written_eq, isSet, Option.map_some],
      each _ content (Members.mem_of_lookup isFound) (Decode.restores_of_settingOf isSetting)⟩

include each in
theorem rearranged_of_schemas {read : List (String × Schema)}
    (areRead : Decode.schemas (.object members) = .ok read) :
    Rearranged .schemas ((Json.object members).normal .schemas)
      (.object (Schema.fieldsToJson read)) := by
  rw [Json.normal]
  refine .each (fields_forall₂ (Decode.fields_eq_ok_iff.mp areRead) ?_)
  intro name content inner isMember isRead
  exact @each name content isMember .schema _ ⟨inner, isRead, rfl⟩

include distinct each in
theorem rearranged_of_discriminator {rule : Discriminator Schema}
    (isRead : Decode.discriminator (.object members) = .ok rule) :
    Rearranged .discriminator ((Json.object members).normal .discriminator)
      (Setting.discriminator rule).written := by
  obtain ⟨⟨-, ⟨⟩⟩ | hasTag, ⟨-, ⟨⟩⟩ | ⟨mapping, hasMapping, areRead⟩⟩ :=
    Decode.parts_of_discriminatorMembers isRead
  have mappingRearranged := @each "mapping" mapping hasMapping .schemas _ ⟨_, areRead, rfl⟩
  rw [Json.normal]
  refine .trans (.members rfl (normalMembers_discriminator_perm distinct hasTag hasMapping))
    (.each ?_)
  exact .cons ⟨rfl, .string, rfl, .refl .string _⟩
    (.cons ⟨rfl, .schemas, rfl, mappingRearranged⟩ .nil)

end Objects

/-- What is written for what was read is the normal form, but for the order of keywords. -/
theorem rearranged_of_restores {role : Role} {value document : Json}
    (isProper : value.proper = true) (restores : role.Restores value document) :
    Rearranged role (value.normal role) document := by
  induction value using Json.insideInduction generalizing role document with
  | step value insideItem insideMember =>
      cases role with
      | schema =>
          obtain ⟨read, isRead, rfl⟩ := restores
          cases value with
          | object members =>
              obtain ⟨distinct, membersProper⟩ := Json.proper_object_iff.mp isProper
              exact rearranged_of_ofJson distinct (fun name content isMember =>
                insideMember members name content rfl isMember
                  (membersProper name content isMember)) isRead
          | _ => cases isRead
      | schemas =>
          obtain ⟨read, areRead, rfl⟩ := restores
          cases value with
          | object members =>
              have membersProper := (Json.proper_object_iff.mp isProper).2
              exact rearranged_of_schemas (fun name content isMember =>
                insideMember members name content rfl isMember
                  (membersProper name content isMember)) areRead
          | _ => cases areRead
      | discriminator =>
          obtain ⟨rule, isRead, rfl⟩ := restores
          cases value with
          | object members =>
              obtain ⟨distinct, membersProper⟩ := Json.proper_object_iff.mp isProper
              exact rearranged_of_discriminator distinct (fun name content isMember =>
                insideMember members name content rfl isMember
                  (membersProper name content isMember)) isRead
          | _ => cases isRead
      | type =>
          obtain ⟨primitive, isRead, rfl⟩ := restores
          rcases Decode.primitive_eq_ok_iff.mp isRead with rfl | rfl
          · exact .refl _ _
          · exact .refl _ _
      | enum | string | boolean =>
          obtain rfl : document = value := restores
          cases document <;> exact .refl _ _

end FormSchema
