import Mathlib.Logic.Relation
import FormSchema.Proofs.Schema.Settings

/-!
# The grammar of schema documents

Every value in the document of a schema has a role: it stands for a schema, for named schemas,
for a discriminator, or for one of the simple things that keywords take.  The names of members
are keywords in some objects and names of the author's choice in others, and the role of an
object says which.

`Shaped` is the grammar: which values can stand for what.  Reading accepts exactly the values
that are shaped like a schema.  Members that do not count in their object make no difference,
neither to the schema that is read nor to the error.
-/

namespace FormSchema

/-- What a value stands for in the document of a schema. -/
inductive Role where
  | schema
  | schemas
  | discriminator
  | type
  | enum
  | string
  | boolean
  deriving DecidableEq

/-- What the value of a keyword stands for. -/
def Keyword.role : Keyword → Role
  | definitions => .schemas
  | ref => .string
  | type => .type
  | enum => .enum
  | elements => .schema
  | properties => .schemas
  | optionalProperties => .schemas
  | additionalProperties => .boolean
  | values => .schema
  | discriminator => .discriminator

namespace Role

/-- What the value of a member stands for, if the member counts. -/
def inside : Role → String → Option Role
  | schema, name => (Keyword.ofName? name).map Keyword.role
  | schemas, _ => some .schema
  | discriminator, name =>
      if name = "tag" then some .string else if name = "mapping" then some .schemas else none
  | _, _ => none

/-- Are the names of the members keywords?  Members with other names are then ignored. -/
def keyed : Role → Bool
  | schema => true
  | discriminator => true
  | _ => false

variable {name : String} {inner : Role}

theorem inside_schema_name (keyword : Keyword) :
    schema.inside keyword.name = some keyword.role := by
  rw [inside, Keyword.ofName?_name, Option.map_some]

theorem inside_schema_eq_some_iff :
    schema.inside name = some inner ↔
      ∃ keyword : Keyword, keyword.name = name ∧ keyword.role = inner := by
  constructor
  · intro counts
    obtain ⟨keyword, isKeyword, isRole⟩ := Option.map_eq_some_iff.mp counts
    exact ⟨keyword, Keyword.name_of_ofName? isKeyword, isRole⟩
  · rintro ⟨keyword, rfl, rfl⟩
    exact inside_schema_name keyword

theorem inside_discriminator_eq_some_iff :
    discriminator.inside name = some inner ↔
      (name = "tag" ∧ inner = string) ∨ (name = "mapping" ∧ inner = schemas) := by
  constructor
  · intro counts
    rw [inside] at counts
    split at counts
    case isTrue isTag => exact .inl ⟨isTag, (Option.some.inj counts).symm⟩
    case isFalse notTag =>
      split at counts
      case isTrue isMapping => exact .inr ⟨isMapping, (Option.some.inj counts).symm⟩
      case isFalse notMapping => cases counts
  · rintro (⟨rfl, rfl⟩ | ⟨rfl, rfl⟩) <;> rfl

theorem inside_discriminator_eq_none_iff :
    discriminator.inside name = none ↔ name ≠ "tag" ∧ name ≠ "mapping" := by
  constructor
  · intro unknown
    constructor
    · rintro rfl
      cases unknown
    · rintro rfl
      cases unknown
  · rintro ⟨notTag, notMapping⟩
    rw [inside, if_neg notTag, if_neg notMapping]

end Role

/-- A value has the shape of what it stands for. -/
inductive Shaped : Role → Json → Prop where
  /-- Each keyword, when present, has its own shape. -/
  | schema {members : List (String × Json)}
      (shaped : ∀ keyword value, (Keyword.name keyword, value) ∈ members →
        Shaped keyword.role value) :
      Shaped .schema (.object members)
  | schemas {members : List (String × Json)}
      (shaped : ∀ name value, (name, value) ∈ members → Shaped .schema value) :
      Shaped .schemas (.object members)
  /-- Both members of a discriminator are present. -/
  | discriminator {members : List (String × Json)}
      (tagShaped : ∀ value, ("tag", value) ∈ members → Shaped .string value)
      (mappingShaped : ∀ value, ("mapping", value) ∈ members → Shaped .schemas value)
      (tagged : "tag" ∈ Members.names members) (mapped : "mapping" ∈ Members.names members) :
      Shaped .discriminator (.object members)
  | typeName (primitive : Primitive) : Shaped .type (.string primitive.name)
  | typeObject (primitive : Primitive) : Shaped .type (.object [(primitive.name, .null)])
  | enum {texts : List String} (inhabited : texts ≠ []) (distinct : texts.Nodup) :
      Shaped .enum (.ofStrings texts)
  | string (text : String) : Shaped .string (.string text)
  | boolean (truth : Bool) : Shaped .boolean (.bool truth)

/-! ## What it takes to have a shape -/

section Shapes

variable {members : List (String × Json)} {value : Json}

theorem shaped_schema_iff :
    Shaped .schema (.object members) ↔
      ∀ keyword value, (Keyword.name keyword, value) ∈ members → Shaped keyword.role value := by
  constructor
  · intro isShaped
    cases isShaped with
    | schema shaped => exact shaped
  · exact .schema

theorem shaped_schemas_iff :
    Shaped .schemas (.object members) ↔
      ∀ name value, (name, value) ∈ members → Shaped .schema value := by
  constructor
  · intro isShaped
    cases isShaped with
    | schemas shaped => exact shaped
  · exact .schemas

theorem shaped_discriminator_iff :
    Shaped .discriminator (.object members) ↔
      (∀ value, ("tag", value) ∈ members → Shaped .string value) ∧
      (∀ value, ("mapping", value) ∈ members → Shaped .schemas value) ∧
      "tag" ∈ Members.names members ∧ "mapping" ∈ Members.names members := by
  constructor
  · intro isShaped
    cases isShaped with
    | discriminator tagShaped mappingShaped tagged mapped =>
        exact ⟨tagShaped, mappingShaped, tagged, mapped⟩
  · rintro ⟨tagShaped, mappingShaped, tagged, mapped⟩
    exact .discriminator tagShaped mappingShaped tagged mapped

theorem shaped_type_iff :
    Shaped .type value ↔ ∃ primitive : Primitive,
      value = .string primitive.name ∨ value = .object [(primitive.name, .null)] := by
  constructor
  · intro isShaped
    cases isShaped with
    | typeName primitive => exact ⟨primitive, .inl rfl⟩
    | typeObject primitive => exact ⟨primitive, .inr rfl⟩
  · rintro ⟨primitive, rfl | rfl⟩
    · exact .typeName primitive
    · exact .typeObject primitive

theorem shaped_enum_iff :
    Shaped .enum value ↔ ∃ texts, value = .ofStrings texts ∧ texts ≠ [] ∧ texts.Nodup := by
  constructor
  · intro isShaped
    cases isShaped with
    | enum inhabited distinct => exact ⟨_, rfl, inhabited, distinct⟩
  · rintro ⟨texts, rfl, inhabited, distinct⟩
    exact .enum inhabited distinct

theorem shaped_string_iff : Shaped .string value ↔ ∃ text, value = .string text := by
  constructor
  · intro isShaped
    cases isShaped with
    | string text => exact ⟨text, rfl⟩
  · rintro ⟨text, rfl⟩
    exact .string text

theorem shaped_boolean_iff : Shaped .boolean value ↔ ∃ truth, value = .bool truth := by
  constructor
  · intro isShaped
    cases isShaped with
    | boolean truth => exact ⟨truth, rfl⟩
  · rintro ⟨truth, rfl⟩
    exact .boolean truth

end Shapes

namespace Decode

/-! ## Simple values -/

theorem boolean_eq_ok_iff {value : Json} {truth : Bool} :
    boolean value = .ok truth ↔ value = .bool truth := by
  cases value with
  | bool read => simp [boolean]
  | _ => exact iff_of_false nofun nofun

theorem items_string_eq_ok_iff {position : Nat} {values : List Json} {texts : List String} :
    items string position values = .ok texts ↔ values = texts.map .string := by
  induction values generalizing position texts with
  | nil => simp [items, eq_comm]
  | cons value rest inductionHypothesis =>
      rw [items]
      constructor
      · intro areRead
        obtain ⟨text, isText, areRead⟩ := Attempt.bind_eq_ok_iff.mp areRead
        obtain ⟨others, areOthers, areRead⟩ := Attempt.bind_eq_ok_iff.mp areRead
        cases areRead
        rw [string_eq_ok_iff.mp (under_eq_ok_iff.mp isText), inductionHypothesis.mp areOthers,
          List.map_cons]
      · intro same
        cases texts with
        | nil => cases same
        | cons text others =>
            obtain ⟨isText, areOthers⟩ := List.cons_eq_cons.mp same
            refine Attempt.bind_eq_ok_iff.mpr
              ⟨text, under_eq_ok_iff.mpr (string_eq_ok_iff.mpr isText), ?_⟩
            exact Attempt.bind_eq_ok_iff.mpr ⟨others, inductionHypothesis.mpr areOthers, rfl⟩

/-- A list of strings is read as what it is the list of. -/
theorem strings_eq_ok_iff {expected : Expected} {value : Json} {texts : List String} :
    strings expected value = .ok texts ↔ value = .ofStrings texts := by
  cases value with
  | array values =>
      rw [Json.ofStrings, Json.array.injEq]
      exact items_string_eq_ok_iff
  | _ => exact iff_of_false nofun nofun

theorem primitiveNamed_eq_ok_iff {name : String} {primitive : Primitive} :
    primitiveNamed name = .ok primitive ↔ name = primitive.name := by
  constructor
  · intro isRead
    rw [primitiveNamed] at isRead
    cases isPrimitive : Primitive.ofName? name with
    | none =>
        rw [isPrimitive] at isRead
        cases isRead
    | some found =>
        rw [isPrimitive] at isRead
        cases isRead
        have sameName : primitive.name = name := by simpa using List.find?_some isPrimitive
        exact sameName.symm
  · rintro rfl
    cases primitive <;> rfl

/-- A primitive is read from its name, and from an object with its name and null. -/
theorem primitive_eq_ok_iff {value : Json} {read : Primitive} :
    primitive value = .ok read ↔
      value = .string read.name ∨ value = .object [(read.name, .null)] := by
  match value with
  | .string name =>
      rw [primitive, primitiveNamed_eq_ok_iff]
      simp
  | .object [(name, payload)] =>
      rw [primitive]
      constructor
      · intro isRead
        obtain ⟨named, isNamed, isRead⟩ := Attempt.bind_eq_ok_iff.mp isRead
        cases payload with
        | null =>
            cases isRead
            rw [primitiveNamed_eq_ok_iff.mp isNamed]
            exact .inr rfl
        | _ => cases isRead
      · rintro (same | same)
        · cases same
        · cases same
          exact Attempt.bind_eq_ok_iff.mpr ⟨read, primitiveNamed_eq_ok_iff.mpr rfl, rfl⟩
  | .object [] => exact iff_of_false nofun nofun
  | .object (_ :: _ :: _) => exact iff_of_false nofun nofun
  | .null => exact iff_of_false nofun nofun
  | .bool _ => exact iff_of_false nofun nofun
  | .number _ => exact iff_of_false nofun nofun
  | .array _ => exact iff_of_false nofun nofun

theorem fields_isOk_iff {members : List (String × Json)} :
    (∃ read, fields members = .ok read) ↔
      ∀ name value, (name, value) ∈ members → ∃ schema, Schema.ofJson value = .ok schema := by
  induction members with
  | nil => exact iff_of_true ⟨[], rfl⟩ fun _ _ isMember => absurd isMember List.not_mem_nil
  | cons member rest inductionHypothesis =>
      obtain ⟨name, value⟩ := member
      simp only [fields_cons, bind_isOk_iff, under_eq_ok_iff, Members.forall_mem_cons_iff,
        forall_and, forall_eq, ← inductionHypothesis, pure_isOk, and_true, exists_and_right]

end Decode

/-! ## What can be read -/

/-- Can a value be read as what it stands for? -/
def Role.Readable (value : Json) : Role → Prop
  | schema => ∃ read, Schema.ofJson value = .ok read
  | schemas => ∃ read, Decode.schemas value = .ok read
  | discriminator => ∃ read, Decode.discriminator value = .ok read
  | type => ∃ read, Decode.primitive value = .ok read
  | enum => ∃ read, Decode.strings .sequence value >>= Decode.enumeration = .ok read
  | string => ∃ read, Decode.string value = .ok read
  | boolean => ∃ read, Decode.boolean value = .ok read

theorem Decode.settingOf_isOk_iff {keyword : Keyword} {value : Json} :
    (∃ setting, settingOf keyword value = .ok setting) ↔ keyword.role.Readable value := by
  have kept {α : Type} {outcome : Except DecodeError α} {change : α → Setting} :
      (∃ setting, change <$> outcome = .ok setting) ↔ ∃ read, outcome = .ok read := by
    constructor
    · rintro ⟨setting, isSetting⟩
      obtain ⟨read, isRead, -⟩ := Attempt.map_eq_ok_iff.mp isSetting
      exact ⟨read, isRead⟩
    · rintro ⟨read, isRead⟩
      exact ⟨change read, Attempt.map_eq_ok_iff.mpr ⟨read, isRead, rfl⟩⟩
  rw [settingOf_eq]
  cases keyword with
  | enum =>
      simp only [Keyword.role, Role.Readable, bind_isOk_iff, pure_isOk, and_true]
  | _ => exact kept

/-- What can be read has the shape of what it stands for, and conversely. -/
theorem Role.readable_iff_shaped {role : Role} {value : Json} :
    role.Readable value ↔ Shaped role value := by
  induction value using Json.insideInduction generalizing role with
  | step value insideItem insideMember =>
      cases role with
      | schema =>
          cases value with
          | object members =>
              refine Decode.keywords_isOk_iff.trans (Iff.trans ?_ shaped_schema_iff.symm)
              simp only [Decode.settingOf_isOk_iff]
              exact forall₃_congr fun keyword content isMember =>
                insideMember members _ content rfl isMember
          | _ => exact iff_of_false (by rintro ⟨_, ⟨⟩⟩) nofun
      | schemas =>
          cases value with
          | object members =>
              refine Decode.fields_isOk_iff.trans (Iff.trans ?_ shaped_schemas_iff.symm)
              exact forall₃_congr fun name content isMember =>
                @insideMember members name content rfl isMember .schema
          | _ => exact iff_of_false (by rintro ⟨_, ⟨⟩⟩) nofun
      | discriminator =>
          cases value with
          | object members =>
              refine Decode.discriminatorMembers_isOk_iff.trans
                (Iff.trans ?_ shaped_discriminator_iff.symm)
              have tags (content : Json) (isMember : ("tag", content) ∈ members) :=
                @insideMember members "tag" content rfl isMember .string
              have mappings (content : Json) (isMember : ("mapping", content) ∈ members) :=
                @insideMember members "mapping" content rfl isMember .schemas
              refine and_congr (forall₂_congr tags) (and_congr (forall₂_congr mappings) ?_)
              exact and_congr (forall_prop_of_true rfl) (forall_prop_of_true rfl)
          | _ => exact iff_of_false (by rintro ⟨_, ⟨⟩⟩) nofun
      | type =>
          exact (exists_congr fun _ => Decode.primitive_eq_ok_iff).trans shaped_type_iff.symm
      | enum =>
          rw [shaped_enum_iff]
          constructor
          · rintro ⟨read, isRead⟩
            obtain ⟨texts, isTexts, isChecked⟩ := Attempt.bind_eq_ok_iff.mp isRead
            obtain ⟨inhabited, distinct, -⟩ := Decode.enumeration_eq_ok_iff.mp isChecked
            exact ⟨texts, Decode.strings_eq_ok_iff.mp isTexts, inhabited, distinct⟩
          · rintro ⟨texts, rfl, inhabited, distinct⟩
            exact ⟨texts, Attempt.bind_eq_ok_iff.mpr ⟨texts, Decode.strings_eq_ok_iff.mpr rfl,
              Decode.enumeration_eq_ok_iff.mpr ⟨inhabited, distinct, rfl⟩⟩⟩
      | string =>
          exact (exists_congr fun _ => Decode.string_eq_ok_iff).trans shaped_string_iff.symm
      | boolean =>
          exact (exists_congr fun _ => Decode.boolean_eq_ok_iff).trans shaped_boolean_iff.symm

/-! ## Members that do not count -/

/-- One member is added that does not count, in an object whose members are keywords. -/
inductive Adds : Role → Json → Json → Prop where
  | here {role : Role} (keyed : role.keyed = true) {name : String}
      (unknown : role.inside name = none)
      (value : Json) (before after : List (String × Json)) :
      Adds role (.object (before ++ after)) (.object (before ++ (name, value) :: after))
  | inside {role inner : Role} {name : String} (counts : role.inside name = some inner)
      {value larger : Json} (adds : Adds inner value larger) (before after : List (String × Json)) :
      Adds role (.object (before ++ (name, value) :: after))
        (.object (before ++ (name, larger) :: after))

/-- Are two values read as the same, or with the same error?  Simple values count as they
are. -/
def Role.SameReading (value other : Json) : Role → Prop
  | schema => Schema.ofJson value = Schema.ofJson other
  | schemas => Decode.schemas value = Decode.schemas other
  | discriminator => Decode.discriminator value = Decode.discriminator other
  | _ => value = other

namespace Decode

theorem settingOf_eq_of_sameReading {keyword : Keyword} {value other : Json}
    (same : keyword.role.SameReading value other) :
    settingOf keyword value = settingOf keyword other := by
  rw [settingOf_eq, settingOf_eq]
  cases keyword <;> simp only [Keyword.role, Role.SameReading] at same <;> simp only [same]

section Append

variable {first second : List (String × Json)} (before : List (String × Json))

theorem keywords_append_congr
    (same : ∀ schema, keywords schema first = keywords schema second) (schema : Schema) :
    keywords schema (before ++ first) = keywords schema (before ++ second) := by
  rw [keywords_append, keywords_append, funext same]

theorem fields_append_congr (same : fields first = fields second) :
    fields (before ++ first) = fields (before ++ second) := by
  induction before with
  | nil => exact same
  | cons member rest inductionHypothesis =>
      obtain ⟨name, value⟩ := member
      rw [List.cons_append, List.cons_append, fields_cons, fields_cons, inductionHypothesis]

theorem discriminatorMembers_append_congr
    (same : ∀ tag mapping,
      discriminatorMembers tag mapping first = discriminatorMembers tag mapping second)
    (tag : Option String) (mapping : Option (List (String × Schema))) :
    discriminatorMembers tag mapping (before ++ first) =
      discriminatorMembers tag mapping (before ++ second) := by
  induction before generalizing tag mapping with
  | nil => exact same tag mapping
  | cons member rest inductionHypothesis =>
      obtain ⟨name, value⟩ := member
      rw [List.cons_append, List.cons_append, discriminatorMembers_cons,
        discriminatorMembers_cons]
      simp only [inductionHypothesis]

end Append

end Decode

/-- Members that do not count make no difference to what is read. -/
theorem Adds.sameReading {role : Role} {value larger : Json} (adds : Adds role value larger) :
    role.SameReading value larger := by
  induction adds with
  | @here role keyed name unknown content before after =>
      cases role with
      | schema =>
          have isUnknown : Keyword.ofName? name = none := Option.map_eq_none_iff.mp unknown
          refine Decode.keywords_append_congr before (fun schema => ?_) {}
          rw [Decode.keywords, isUnknown]
      | discriminator =>
          refine Decode.discriminatorMembers_append_congr before (fun tag mapping => ?_) none none
          obtain ⟨notTag, notMapping⟩ := Role.inside_discriminator_eq_none_iff.mp unknown
          rw [Decode.discriminatorMembers_cons, if_neg notTag, if_neg notMapping]
      | _ => cases keyed
  | @inside role inner name counts content grown _ before after inductionHypothesis =>
      cases role with
      | schema =>
          obtain ⟨keyword, isKeyword, rfl⟩ := Option.map_eq_some_iff.mp counts
          refine Decode.keywords_append_congr before (fun schema => ?_) {}
          rw [Decode.keywords, Decode.keywords, isKeyword]
          simp only [Decode.settingOf_eq_of_sameReading inductionHypothesis]
      | schemas =>
          cases counts
          refine Decode.fields_append_congr before ?_
          rw [Decode.fields_cons, Decode.fields_cons]
          exact congrArg (fun read => Decode.under (.key name) read >>= _) inductionHypothesis
      | discriminator =>
          refine Decode.discriminatorMembers_append_congr before (fun tag mapping => ?_) none none
          rcases Role.inside_discriminator_eq_some_iff.mp counts with ⟨rfl, rfl⟩ | ⟨rfl, rfl⟩
          · obtain rfl : content = grown := inductionHypothesis
            rfl
          · have same : Decode.schemas content = Decode.schemas grown := inductionHypothesis
            have notTag : ¬ "mapping" = "tag" := by decide
            rw [Decode.discriminatorMembers_cons, Decode.discriminatorMembers_cons]
            simp only [if_neg notTag, same]
      | _ => cases counts

/-- Reading accepts exactly the values that are shaped like a schema.  Members with unrecognised
names may be added to the schema and discriminator objects, and taken away, at any depth: the
schema that is read stays the same, and so does the error, with its path. -/
theorem ofJson_accepts_grammar (value : Json) :
    ((∃ schema, Schema.ofJson value = .ok schema) ↔ Shaped .schema value) ∧
    ∀ other, Relation.EqvGen (Adds .schema) value other →
      Schema.ofJson value = Schema.ofJson other := by
  refine ⟨@Role.readable_iff_shaped .schema value, fun other related => ?_⟩
  induction related with
  | rel value other adds => exact adds.sameReading
  | refl value => rfl
  | symm value other _ inductionHypothesis => exact inductionHypothesis.symm
  | trans first second third _ _ ofFirst ofSecond => exact ofFirst.trans ofSecond

/-- The document of a list of strings, and the same with a member that is no keyword in each of
its schema objects, are read as the same schema. -/
theorem ofJson_accepts_grammar_notes :
    Relation.EqvGen (Adds .schema)
      (.object [("elements", .object [("type", .string "string")])])
      (.object [("note", .null),
        ("elements", .object [("type", .string "string"), ("note", .null)])]) ∧
    Schema.ofJson (.object [("note", .null),
      ("elements", .object [("type", .string "string"), ("note", .null)])]) =
        .ok { elements := some { type := some .string } } := by
  have inner : Adds .schema (.object [("type", .string "string")])
      (.object [("type", .string "string"), ("note", .null)]) :=
    @Adds.here .schema rfl "note" rfl .null [("type", .string "string")] []
  have related : Relation.EqvGen (Adds .schema)
      (.object [("elements", .object [("type", .string "string")])])
      (.object [("note", .null),
        ("elements", .object [("type", .string "string"), ("note", .null)])]) :=
    .trans _ _ _ (.rel _ _ (@Adds.inside .schema .schema "elements" rfl _ _ inner [] []))
      (.rel _ _ (@Adds.here .schema rfl "note" rfl .null [] _))
  refine ⟨related, ?_⟩
  rw [← (ofJson_accepts_grammar _).2 _ related]
  rfl

/-- Null does not count as an absent keyword. -/
example : ¬ ∃ schema, Schema.ofJson (.object [("ref", .null)]) = .ok schema := by
  rintro ⟨schema, isRead⟩
  cases isRead

end FormSchema
