import FormSchema.Proofs.Json.Matching
import FormSchema.Proofs.Schema.Proper

/-!
# Reading keyword by keyword

A schema is the settings of its ten keywords.  Reading an object sets keywords one after the
other, so every setting of the schema that is read comes from a member with the name of the
keyword, and reading succeeds exactly if every keyword among the members can be read.  The same
is said of the two members of a discriminator, and of named schemas, which are read one by one.
-/

namespace FormSchema

namespace Keyword

@[simp]
theorem ofName?_name (keyword : Keyword) : ofName? keyword.name = some keyword := by
  cases keyword <;> rfl

theorem name_of_ofName? {name : String} {keyword : Keyword}
    (isKeyword : ofName? name = some keyword) : keyword.name = name := by
  simpa using List.find?_some isKeyword

theorem ofName?_eq_none_iff {name : String} :
    ofName? name = none ↔ ∀ keyword : Keyword, name ≠ keyword.name := by
  constructor
  · rintro unknown keyword rfl
    rw [ofName?_name] at unknown
    cases unknown
  · intro different
    cases isKeyword : ofName? name with
    | none => rfl
    | some keyword => exact absurd (name_of_ofName? isKeyword).symm (different keyword)

theorem name_inj {first second : Keyword} : first.name = second.name ↔ first = second := by
  constructor
  · intro same
    have sameKeyword := congrArg ofName? same
    rwa [ofName?_name, ofName?_name, Option.some.injEq] at sameKeyword
  · rintro rfl
    rfl

end Keyword

/-- The schemas that a keyword is set to. -/
def Setting.inner : Setting → List Schema
  | .definitions fields => fields.map Prod.snd
  | .properties fields => fields.map Prod.snd
  | .optionalProperties fields => fields.map Prod.snd
  | .elements item => [item]
  | .values member => [member]
  | .discriminator rule => rule.mapping.map Prod.snd
  | _ => []

namespace Schema

/-! ## Settings -/

/-- What a keyword is set to. -/
def setting? (schema : Schema) : Keyword → Option Setting
  | .definitions => schema.definitions.map .definitions
  | .ref => schema.ref.map .ref
  | .type => schema.type.map .type
  | .enum => schema.enum.map .enum
  | .elements => schema.elements.map .elements
  | .properties => schema.properties.map .properties
  | .optionalProperties => schema.optionalProperties.map .optionalProperties
  | .additionalProperties => schema.additionalProperties.map .additionalProperties
  | .values => schema.values.map .values
  | .discriminator => schema.discriminator.map .discriminator

theorem written_eq (schema : Schema) (keyword : Keyword) :
    schema.written keyword = (schema.setting? keyword).map Setting.written := by
  cases keyword <;> rw [written, setting?, Option.map_map] <;> rfl

theorem keyword_of_setting? {schema : Schema} {keyword : Keyword} {setting : Setting}
    (isSet : schema.setting? keyword = some setting) : setting.keyword = keyword := by
  cases keyword <;> obtain ⟨_, -, rfl⟩ := Option.map_eq_some_iff.mp isSet <;> rfl

/-- The enumeration is set under its own keyword only. -/
theorem setting?_eq_enum_iff {schema : Schema} {keyword : Keyword} {texts : List String} :
    schema.setting? keyword = some (.enum texts) ↔ keyword = .enum ∧ schema.enum = some texts := by
  constructor
  · intro isSet
    obtain rfl : Keyword.enum = keyword := keyword_of_setting? isSet
    obtain ⟨content, isContent, ⟨⟩⟩ := Option.map_eq_some_iff.mp isSet
    exact ⟨rfl, isContent⟩
  · rintro ⟨rfl, isSet⟩
    exact Option.map_eq_some_iff.mpr ⟨texts, isSet, rfl⟩

theorem setting?_empty (keyword : Keyword) : setting? {} keyword = none := by
  cases keyword <;> rfl

/-- Setting a keyword changes its setting and no other. -/
theorem setting?_set (schema : Schema) (setting : Setting) (keyword : Keyword) :
    (schema.set setting).setting? keyword =
      if keyword = setting.keyword then some setting else schema.setting? keyword := by
  cases setting <;> cases keyword <;> rfl

/-- A schema is determined by its settings. -/
theorem eq_of_settings {first second : Schema}
    (same : ∀ keyword, first.setting? keyword = second.setting? keyword) : first = second := by
  have definitions := Option.map_injective (fun _ _ => Setting.definitions.inj) (same .definitions)
  have ref := Option.map_injective (fun _ _ => Setting.ref.inj) (same .ref)
  have type := Option.map_injective (fun _ _ => Setting.type.inj) (same .type)
  have enum := Option.map_injective (fun _ _ => Setting.enum.inj) (same .enum)
  have elements := Option.map_injective (fun _ _ => Setting.elements.inj) (same .elements)
  have properties := Option.map_injective (fun _ _ => Setting.properties.inj) (same .properties)
  have optionalProperties :=
    Option.map_injective (fun _ _ => Setting.optionalProperties.inj) (same .optionalProperties)
  have additionalProperties :=
    Option.map_injective (fun _ _ => Setting.additionalProperties.inj) (same .additionalProperties)
  have values := Option.map_injective (fun _ _ => Setting.values.inj) (same .values)
  have discriminator :=
    Option.map_injective (fun _ _ => Setting.discriminator.inj) (same .discriminator)
  cases first
  cases second
  rw [Schema.mk.injEq]
  exact ⟨definitions, ref, type, enum, elements, properties, optionalProperties,
    additionalProperties, values, discriminator⟩

end Schema

namespace Members

variable {α : Type} {name searched : String} {first : α} {rest : List (String × α)}

theorem mem_names_cons :
    searched ∈ names ((name, first) :: rest) ↔ searched = name ∨ searched ∈ names rest :=
  List.mem_cons

/-- What holds under a name holds of the first member, if that has the name, and of the rest. -/
theorem forall_mem_cons_iff {property : α → Prop} :
    (∀ value, (searched, value) ∈ (name, first) :: rest → property value) ↔
      (searched = name → property first) ∧ ∀ value, (searched, value) ∈ rest → property value := by
  simp only [List.mem_cons, Prod.mk.injEq]
  constructor
  · intro holds
    exact ⟨fun same => holds first (.inl ⟨same, rfl⟩), fun value isLater =>
      holds value (.inr isLater)⟩
  · rintro ⟨ofFirst, ofRest⟩ value (⟨same, rfl⟩ | isLater)
    · exact ofFirst same
    · exact ofRest value isLater

end Members

namespace Decode

variable {schema result : Schema} {members : List (String × Json)}

/-- A step after another succeeds if the first does and leads to a success of the second. -/
theorem bind_isOk_iff {α β : Type} {before : Except DecodeError α}
    {next : α → Except DecodeError β} :
    (∃ result, before >>= next = .ok result) ↔
      ∃ between, before = .ok between ∧ ∃ result, next between = .ok result := by
  simp only [Attempt.bind_eq_ok_iff]
  rw [exists_comm]
  simp only [exists_and_left]

theorem pure_isOk {α : Type} (value : α) :
    ∃ result, (pure value : Except DecodeError α) = .ok result :=
  ⟨value, rfl⟩

/-! ## Reading keywords -/

/-- A keyword is set to its own kind of setting. -/
theorem keyword_of_settingOf {keyword : Keyword} {value : Json} {setting : Setting}
    (isRead : settingOf keyword value = .ok setting) : setting.keyword = keyword := by
  rw [settingOf_eq] at isRead
  cases keyword with
  | enum =>
      obtain ⟨texts, -, isRead⟩ := Attempt.bind_eq_ok_iff.mp isRead
      obtain ⟨checked, -, isRead⟩ := Attempt.bind_eq_ok_iff.mp isRead
      cases isRead
      rfl
  | _ =>
      obtain ⟨read, -, rfl⟩ := Attempt.map_eq_ok_iff.mp isRead
      rfl

theorem keywords_append (schema : Schema) (before after : List (String × Json)) :
    keywords schema (before ++ after) =
      keywords schema before >>= fun reached => keywords reached after := by
  induction before generalizing schema with
  | nil => rfl
  | cons member rest inductionHypothesis =>
      obtain ⟨name, value⟩ := member
      rw [List.cons_append, keywords, keywords]
      cases Keyword.ofName? name with
      | none => exact inductionHypothesis schema
      | some keyword =>
          simp only [bind_assoc]
          congr 1
          funext setting
          exact inductionHypothesis (schema.set setting)

/-- The members of a schema object can be read exactly if each keyword among them can. -/
theorem keywords_isOk_iff :
    (∃ result, keywords schema members = .ok result) ↔
      ∀ keyword value, (Keyword.name keyword, value) ∈ members →
        ∃ setting, settingOf keyword value = .ok setting := by
  induction members generalizing schema with
  | nil => exact iff_of_true ⟨schema, rfl⟩ fun _ _ isMember => absurd isMember List.not_mem_nil
  | cons member rest inductionHypothesis =>
      obtain ⟨name, value⟩ := member
      simp only [keywords, Members.forall_mem_cons_iff]
      cases isKeyword : Keyword.ofName? name with
      | none =>
          rw [Keyword.ofName?_eq_none_iff] at isKeyword
          simp only [inductionHypothesis, (isKeyword _).symm, false_imp_iff, true_and]
      | some keyword =>
          obtain rfl := Keyword.name_of_ofName? isKeyword
          simp only [bind_isOk_iff, under_eq_ok_iff, inductionHypothesis, Keyword.name_inj,
            exists_and_right, forall_and, forall_eq]

/-- What a keyword is set to is read from a member with its name, if there is one, and has been
set before if there is none. -/
theorem setting?_of_keywords (isRead : keywords schema members = .ok result) (keyword : Keyword) :
    (keyword.name ∉ Members.names members ∧
      result.setting? keyword = schema.setting? keyword) ∨
    ∃ value setting, (keyword.name, value) ∈ members ∧
      settingOf keyword value = .ok setting ∧ result.setting? keyword = some setting := by
  induction members generalizing schema with
  | nil =>
      cases isRead
      exact .inl ⟨List.not_mem_nil, rfl⟩
  | cons member rest inductionHypothesis =>
      obtain ⟨name, value⟩ := member
      have later (content : Json) (setting : Setting)
          (found : (keyword.name, content) ∈ rest ∧ settingOf keyword content = .ok setting ∧
            result.setting? keyword = some setting) :
          ∃ content setting, (keyword.name, content) ∈ (name, value) :: rest ∧
            settingOf keyword content = .ok setting ∧ result.setting? keyword = some setting :=
        ⟨content, setting, List.mem_cons_of_mem _ found.1, found.2⟩
      rw [keywords] at isRead
      cases isKeyword : Keyword.ofName? name with
      | none =>
          rw [isKeyword] at isRead
          rw [Keyword.ofName?_eq_none_iff] at isKeyword
          obtain ⟨absent, same⟩ | ⟨content, setting, found⟩ := inductionHypothesis isRead
          · refine .inl ⟨fun present => ?_, same⟩
            rcases List.mem_cons.mp present with isFirst | isLater
            · exact isKeyword keyword isFirst.symm
            · exact absent isLater
          · exact .inr (later content setting found)
      | some other =>
          rw [isKeyword] at isRead
          obtain rfl := Keyword.name_of_ofName? isKeyword
          obtain ⟨setting, isSetting, isRead⟩ := Attempt.bind_eq_ok_iff.mp isRead
          have isSetting := under_eq_ok_iff.mp isSetting
          obtain ⟨absent, same⟩ | ⟨content, setting, found⟩ := inductionHypothesis isRead
          · rw [Schema.setting?_set, keyword_of_settingOf isSetting] at same
            by_cases sameKeyword : keyword = other
            · subst sameKeyword
              rw [if_pos rfl] at same
              exact .inr ⟨value, setting, List.mem_cons_self, isSetting, same⟩
            · rw [if_neg sameKeyword] at same
              refine .inl ⟨fun present => ?_, same⟩
              rcases List.mem_cons.mp present with isFirst | isLater
              · exact sameKeyword (Keyword.name_inj.mp isFirst)
              · exact absent isLater
          · exact .inr (later content setting found)

/-- Where no name is repeated, a keyword is set to what is read from the member with its name,
if there is one. -/
theorem setting?_of_lookup (distinct : (Members.names members).Nodup)
    (isRead : keywords {} members = .ok result) (keyword : Keyword) :
    (members.lookup keyword.name = none ∧ result.setting? keyword = none) ∨
    ∃ value setting, members.lookup keyword.name = some value ∧
      settingOf keyword value = .ok setting ∧ result.setting? keyword = some setting := by
  obtain ⟨absent, unset⟩ | ⟨value, setting, isMember, isSetting, isSet⟩ :=
    setting?_of_keywords isRead keyword
  · rw [Schema.setting?_empty] at unset
    exact .inl ⟨Members.lookup_eq_none_iff.mpr absent, unset⟩
  · exact .inr ⟨value, setting, Members.lookup_of_mem distinct isMember, isSetting, isSet⟩

/-! ## Reading named schemas and discriminators -/

/-- A member is read as a named schema. -/
def ReadsField (member : String × Json) (field : String × Schema) : Prop :=
  member.1 = field.1 ∧ Schema.ofJson member.2 = .ok field.2

/-- Named schemas are read one by one. -/
theorem fields_eq_ok_iff {read : List (String × Schema)} :
    fields members = .ok read ↔ List.Forall₂ ReadsField members read := by
  induction members generalizing read with
  | nil =>
      rw [fields, List.forall₂_nil_left_iff, Except.ok.injEq]
      exact eq_comm
  | cons member rest inductionHypothesis =>
      obtain ⟨name, value⟩ := member
      rw [fields_cons]
      constructor
      · intro isRead
        obtain ⟨schema, isSchema, isRead⟩ := Attempt.bind_eq_ok_iff.mp isRead
        obtain ⟨others, areOthers, isRead⟩ := Attempt.bind_eq_ok_iff.mp isRead
        cases isRead
        exact .cons ⟨rfl, under_eq_ok_iff.mp isSchema⟩ (inductionHypothesis.mp areOthers)
      · rintro (_ | ⟨⟨rfl, isSchema⟩, areOthers⟩)
        exact Attempt.bind_eq_ok_iff.mpr ⟨_, under_eq_ok_iff.mpr isSchema,
          Attempt.bind_eq_ok_iff.mpr ⟨_, inductionHypothesis.mpr areOthers, rfl⟩⟩

theorem exists_mem_of_fields {read : List (String × Schema)} (isRead : fields members = .ok read)
    {name : String} {inner : Schema} (isField : (name, inner) ∈ read) :
    ∃ value, (name, value) ∈ members ∧ Schema.ofJson value = .ok inner := by
  have matched := (Matched.of_forall₂ (fields_eq_ok_iff.mp isRead)).flip
  obtain ⟨⟨_, value⟩, isMember, rfl, isSchema⟩ := matched.exists_of_mem isField
  exact ⟨value, isMember, isSchema⟩

theorem string_eq_ok_iff {value : Json} {text : String} :
    string value = .ok text ↔ value = .string text := by
  cases value with
  | string read => simp [string]
  | _ => exact iff_of_false nofun nofun

section Discriminator

variable {tag : Option String} {mapping : Option (List (String × Schema))}

/-- The tag and the mapping of a discriminator are read from members with these names, or have
been read before if there are none. -/
theorem parts_of_discriminatorMembers {rule : Discriminator Schema}
    (isRead : discriminatorMembers tag mapping members = .ok rule) :
    (("tag" ∉ Members.names members ∧ tag = some rule.tag) ∨
      ("tag", .string rule.tag) ∈ members) ∧
    (("mapping" ∉ Members.names members ∧ mapping = some rule.mapping) ∨
      ∃ value, ("mapping", value) ∈ members ∧ schemas value = .ok rule.mapping) := by
  induction members generalizing tag mapping with
  | nil =>
      cases tag <;> cases mapping <;> cases isRead
      exact ⟨.inl ⟨List.not_mem_nil, rfl⟩, .inl ⟨List.not_mem_nil, rfl⟩⟩
  | cons member rest inductionHypothesis =>
      obtain ⟨name, value⟩ := member
      have absent {searched : String} (different : searched ≠ name)
          (notLater : searched ∉ Members.names rest) :
          searched ∉ Members.names ((name, value) :: rest) :=
        fun present => (List.mem_cons.mp present).elim different notLater
      have later (content : Json) (found : ("mapping", content) ∈ rest ∧
          schemas content = .ok rule.mapping) :
          ∃ content, ("mapping", content) ∈ (name, value) :: rest ∧
            schemas content = .ok rule.mapping :=
        ⟨content, List.mem_cons_of_mem _ found.1, found.2⟩
      rw [discriminatorMembers_cons] at isRead
      split at isRead
      · rename_i isTag
        obtain ⟨text, isText, isRead⟩ := Attempt.bind_eq_ok_iff.mp isRead
        obtain rfl := string_eq_ok_iff.mp (under_eq_ok_iff.mp isText)
        obtain ⟨tagRead, mappingRead⟩ := inductionHypothesis isRead
        refine ⟨.inr ?_, ?_⟩
        · rcases tagRead with ⟨-, sameTag⟩ | isLater
          · rw [isTag, ← Option.some.inj sameTag]
            exact List.mem_cons_self
          · exact List.mem_cons_of_mem _ isLater
        · rcases mappingRead with ⟨notLater, isMapping⟩ | ⟨content, found⟩
          · exact .inl ⟨absent (by rw [isTag]; decide) notLater, isMapping⟩
          · exact .inr (later content found)
      · rename_i notTag
        have tagLater (tagRead : ("tag" ∉ Members.names rest ∧ tag = some rule.tag) ∨
            ("tag", .string rule.tag) ∈ rest) :
            ("tag" ∉ Members.names ((name, value) :: rest) ∧ tag = some rule.tag) ∨
              ("tag", .string rule.tag) ∈ (name, value) :: rest :=
          tagRead.imp (.imp_left (absent (Ne.symm notTag))) (List.mem_cons_of_mem _)
        split at isRead
        · rename_i isMapping
          obtain ⟨read, isSchemas, isRead⟩ := Attempt.bind_eq_ok_iff.mp isRead
          have isSchemas := under_eq_ok_iff.mp isSchemas
          obtain ⟨tagRead, mappingRead⟩ := inductionHypothesis isRead
          refine ⟨tagLater tagRead, .inr ?_⟩
          rcases mappingRead with ⟨-, sameMapping⟩ | ⟨content, found⟩
          · cases sameMapping
            exact ⟨value, isMapping ▸ List.mem_cons_self, isSchemas⟩
          · exact later content found
        · rename_i notMapping
          obtain ⟨tagRead, mappingRead⟩ := inductionHypothesis isRead
          refine ⟨tagLater tagRead, ?_⟩
          rcases mappingRead with ⟨notLater, isMapping⟩ | ⟨content, found⟩
          · exact .inl ⟨absent (Ne.symm notMapping) notLater, isMapping⟩
          · exact .inr (later content found)

/-- The members of a discriminator object can be read exactly if the tag and the mapping among
them can, and both are there or have been read before. -/
theorem discriminatorMembers_isOk_iff :
    (∃ rule, discriminatorMembers tag mapping members = .ok rule) ↔
      (∀ value, ("tag", value) ∈ members → ∃ text, string value = .ok text) ∧
      (∀ value, ("mapping", value) ∈ members → ∃ read, schemas value = .ok read) ∧
      (tag = none → "tag" ∈ Members.names members) ∧
      (mapping = none → "mapping" ∈ Members.names members) := by
  induction members generalizing tag mapping with
  | nil =>
      cases tag <;> cases mapping <;> simp [discriminatorMembers, discriminatorOf, Members.names]
  | cons member rest inductionHypothesis =>
      obtain ⟨name, value⟩ := member
      rw [discriminatorMembers_cons, Members.forall_mem_cons_iff, Members.forall_mem_cons_iff,
        Members.mem_names_cons, Members.mem_names_cons]
      split
      · rename_i isTag
        subst isTag
        simp only [bind_isOk_iff, under_eq_ok_iff, inductionHypothesis, reduceCtorEq,
          IsEmpty.forall_iff, true_and, exists_and_right, forall_const, String.reduceEq, true_or,
          implies_true, false_or]
        tauto
      · rename_i notTag
        split
        · rename_i isMapping
          subst isMapping
          simp only [bind_isOk_iff, under_eq_ok_iff, inductionHypothesis, reduceCtorEq,
            IsEmpty.forall_iff, and_true, exists_and_right, String.reduceEq, true_and,
            forall_const, false_or, true_or, implies_true]
          tauto
        · rename_i notMapping
          simp only [inductionHypothesis, Ne.symm notTag, Ne.symm notMapping, false_imp_iff,
            true_and, false_or]

end Discriminator

/-! ## Reading enumerations -/

theorem firstRepeated?_eq_none_iff {seen texts : List String} :
    firstRepeated? seen texts = none ↔ texts.Nodup ∧ ∀ text ∈ texts, text ∉ seen := by
  induction texts generalizing seen with
  | nil => exact iff_of_true rfl ⟨List.nodup_nil, nofun⟩
  | cons text rest inductionHypothesis =>
      rw [firstRepeated?, List.nodup_cons, List.forall_mem_cons]
      split
      · rename_i isSeen
        exact iff_of_false nofun fun distinct => distinct.2.1 isSeen
      · rename_i notSeen
        simp only [inductionHypothesis, List.mem_cons, not_or, notSeen, not_false_eq_true, true_and]
        constructor
        · rintro ⟨distinct, others⟩
          exact ⟨⟨fun isLater => (others text isLater).1 rfl, distinct⟩,
            fun other isLater => (others other isLater).2⟩
        · rintro ⟨⟨notLater, distinct⟩, unseen⟩
          refine ⟨distinct, fun other isLater => ⟨?_, unseen other isLater⟩⟩
          rintro rfl
          exact notLater isLater

/-- An enumeration has values, and none of them twice. -/
theorem enumeration_eq_ok_iff {texts read : List String} :
    enumeration texts = .ok read ↔ texts ≠ [] ∧ texts.Nodup ∧ read = texts := by
  cases texts with
  | nil => exact iff_of_false nofun fun isRead => isRead.1 rfl
  | cons first rest =>
      have distinct : firstRepeated? [] (first :: rest) = none ↔ (first :: rest).Nodup :=
        firstRepeated?_eq_none_iff.trans (and_iff_left fun _ _ => List.not_mem_nil)
      rw [enumeration, List.isEmpty_cons, if_neg Bool.false_ne_true, ← distinct]
      cases firstRepeated? [] (first :: rest) with
      | none =>
          rw [Except.ok.injEq, eq_comm]
          simp only [ne_eq, reduceCtorEq, not_false_eq_true, true_and]
      | some repeated =>
          refine iff_of_false ?_ fun isRead => ?_
          · intro same
            cases same
          · cases isRead.2.1

end Decode

end FormSchema
