import FormSchema.Proofs.Schema.NormalForm
import FormSchema.Proofs.Schema.Reading
import FormSchema.Proofs.Schema.WellFormed

/-!
# Writing and reading a schema

What is written for a schema is read as the same schema, keyword by keyword, unless there is an
enumeration without values somewhere in the tree.  Reading refuses those, and nothing else that
is ever written.

In the other direction, the document of a schema that was read is the normal form of the value
that it was read from.  There only the members that count are kept, and a type is its name.
Keywords are written in their own order, so the members of schema and discriminator objects may
stand in another order, while named schemas keep theirs.
-/

namespace FormSchema

namespace Decode

/-! ## Reading what is written -/

/-- What is written for named schemas is read as the same ones, if this is so for each of
them. -/
theorem fields_written_iff {fields read : List (String × Schema)}
    (each : ∀ inner ∈ fields.map Prod.snd, ∀ read,
      Schema.ofJson inner.toJson = .ok read ↔ inner.InhabitedEnums ∧ read = inner) :
    Decode.fields (Schema.fieldsToJson fields) = .ok read ↔
      (∀ inner ∈ fields.map Prod.snd, inner.InhabitedEnums) ∧ read = fields := by
  induction fields generalizing read with
  | nil =>
      rw [Schema.fieldsToJson, Decode.fields, Except.ok.injEq, eq_comm]
      exact (and_iff_right (List.forall_mem_nil _)).symm
  | cons field rest inductionHypothesis =>
      obtain ⟨name, schema⟩ := field
      rw [List.map_cons, List.forall_mem_cons] at each ⊢
      rw [Schema.fieldsToJson, fields_cons]
      simp only [Attempt.bind_eq_ok_iff, under_eq_ok_iff, each.1, inductionHypothesis each.2]
      constructor
      · rintro ⟨_, ⟨inhabited, rfl⟩, _, ⟨others, rfl⟩, ⟨⟩⟩
        exact ⟨⟨inhabited, others⟩, rfl⟩
      · rintro ⟨⟨inhabited, others⟩, rfl⟩
        exact ⟨schema, ⟨inhabited, rfl⟩, rest, ⟨others, rfl⟩, rfl⟩

/-- A discriminator is read from its two members in order. -/
theorem discriminator_written (rule : Discriminator Schema) :
    discriminator (Setting.discriminator rule).written = (do
      let mapping ← under (.key "mapping")
        (schemas (.object (Schema.fieldsToJson rule.mapping)))
      return ⟨rule.tag, mapping⟩) := by
  have notTag : "mapping" ≠ "tag" := by decide
  have remaining : discriminatorMembers (some rule.tag) none
      [("mapping", .object (Schema.fieldsToJson rule.mapping))] = (do
        let mapping ← under (.key "mapping")
          (schemas (.object (Schema.fieldsToJson rule.mapping)))
        return ⟨rule.tag, mapping⟩) := by
    rw [discriminatorMembers_cons, if_neg notTag, if_pos rfl]
    rfl
  rw [← remaining, Setting.written, discriminator, discriminatorMembers_cons, if_pos rfl]
  rfl

theorem ofStrings_injective {first second : List String}
    (same : Json.ofStrings first = Json.ofStrings second) : first = second :=
  List.map_injective_iff.mpr (fun _ _ => Json.string.inj) (Json.array.inj same)

/-- A setting without schemas inside is read as it is or not at all. -/
theorem simple_written_iff {setting read : Setting} {outcome : Except DecodeError Setting}
    (isRead : outcome = .ok setting) (notEmpty : setting ≠ .enum []) (simple : setting.inner = []) :
    outcome = .ok read ↔
      (setting ≠ .enum [] ∧ ∀ inner ∈ setting.inner, inner.InhabitedEnums) ∧ read = setting := by
  rw [isRead, Except.ok.injEq, eq_comm, simple]
  exact (and_iff_right ⟨notEmpty, nofun⟩).symm

/-- What is written for a setting is read as the same setting, unless it is an enumeration
without values, if this is so for the schemas inside. -/
theorem settingOf_written_iff {setting read : Setting}
    (distinct : ∀ texts, setting = .enum texts → texts.Nodup)
    (each : ∀ inner ∈ setting.inner, ∀ read,
      Schema.ofJson inner.toJson = .ok read ↔ inner.InhabitedEnums ∧ read = inner) :
    settingOf setting.keyword setting.written = .ok read ↔
      (setting ≠ .enum [] ∧ ∀ inner ∈ setting.inner, inner.InhabitedEnums) ∧ read = setting := by
  rw [settingOf_eq]
  cases setting with
  | definitions fields | properties fields | optionalProperties fields =>
      refine Attempt.map_eq_ok_iff.trans ?_
      simp only [Setting.written, schemas, fields_written_iff each]
      constructor
      · rintro ⟨_, ⟨inhabited, rfl⟩, rfl⟩
        exact ⟨⟨nofun, inhabited⟩, rfl⟩
      · rintro ⟨⟨-, inhabited⟩, rfl⟩
        exact ⟨fields, ⟨inhabited, rfl⟩, rfl⟩
  | elements item | values item =>
      refine Attempt.map_eq_ok_iff.trans ?_
      simp only [Setting.written, each item (List.mem_singleton_self item), Setting.inner,
        List.forall_mem_singleton]
      constructor
      · rintro ⟨_, ⟨inhabited, rfl⟩, rfl⟩
        exact ⟨⟨nofun, inhabited⟩, rfl⟩
      · rintro ⟨⟨-, inhabited⟩, rfl⟩
        exact ⟨item, ⟨inhabited, rfl⟩, rfl⟩
  | discriminator rule =>
      refine Attempt.map_eq_ok_iff.trans ?_
      simp only [discriminator_written, Attempt.bind_eq_ok_iff, under_eq_ok_iff, schemas,
        fields_written_iff each]
      constructor
      · rintro ⟨_, ⟨_, ⟨inhabited, rfl⟩, ⟨⟩⟩, rfl⟩
        exact ⟨⟨nofun, inhabited⟩, rfl⟩
      · rintro ⟨⟨-, inhabited⟩, rfl⟩
        exact ⟨rule, ⟨rule.mapping, ⟨inhabited, rfl⟩, rfl⟩, rfl⟩
  | enum texts =>
      simp only [Setting.keyword, Setting.written, Attempt.bind_eq_ok_iff, strings_eq_ok_iff,
        enumeration_eq_ok_iff]
      constructor
      · rintro ⟨_, sameTexts, _, ⟨inhabited, -, rfl⟩, ⟨⟩⟩
        cases ofStrings_injective sameTexts
        refine ⟨⟨fun isEmpty => ?_, nofun⟩, rfl⟩
        cases isEmpty
        exact inhabited rfl
      · rintro ⟨⟨inhabited, -⟩, rfl⟩
        refine ⟨texts, rfl, texts, ⟨?_, distinct texts rfl, rfl⟩, rfl⟩
        rintro rfl
        exact inhabited rfl
  | ref name =>
      exact simple_written_iff rfl nofun rfl
  | type primitive =>
      refine simple_written_iff (Attempt.map_eq_ok_iff.mpr ⟨primitive, ?_, rfl⟩) nofun rfl
      exact primitive_eq_ok_iff.mpr (.inl rfl)
  | additionalProperties allowed =>
      exact simple_written_iff rfl nofun rfl

/-- The members that are written for some keywords complete a schema that has been read from
those for the others. -/
theorem keywords_written_iff {schema start read : Schema} {recovers : Setting → Prop}
    (each : ∀ keyword setting, schema.setting? keyword = some setting → ∀ read,
      settingOf keyword setting.written = .ok read ↔ recovers setting ∧ read = setting)
    {remaining : List Keyword} (distinct : remaining.Nodup)
    (others : ∀ keyword, keyword ∉ remaining →
      start.setting? keyword = schema.setting? keyword)
    (unset : ∀ keyword ∈ remaining, start.setting? keyword = none) :
    keywords start (remaining.flatMap fun keyword =>
        Schema.memberOf keyword.name (schema.written keyword)) = .ok read ↔
      (∀ keyword ∈ remaining, ∀ setting, schema.setting? keyword = some setting →
        recovers setting) ∧ read = schema := by
  induction remaining generalizing start with
  | nil =>
      have complete : start = schema :=
        Schema.eq_of_settings fun keyword => others keyword List.not_mem_nil
      rw [List.flatMap_nil, keywords, Except.ok.injEq, complete, eq_comm]
      exact (and_iff_right nofun).symm
  | cons keyword rest inductionHypothesis =>
      obtain ⟨notLater, distinctRest⟩ := List.nodup_cons.mp distinct
      obtain ⟨unsetHere, unsetRest⟩ := List.forall_mem_cons.mp unset
      rw [List.flatMap_cons, Schema.written_eq, List.forall_mem_cons]
      cases isSet : schema.setting? keyword with
      | none =>
          have othersRest (other : Keyword) (notRest : other ∉ rest) :
              start.setting? other = schema.setting? other := by
            by_cases same : other = keyword
            · rw [same, unsetHere, isSet]
            · exact others other fun isOther => (List.mem_cons.mp isOther).elim same notRest
          refine (inductionHypothesis distinctRest othersRest unsetRest).trans ?_
          simp only [reduceCtorEq, IsEmpty.forall_iff, implies_true, true_and]
      | some setting =>
          have sameKeyword := Schema.keyword_of_setting? isSet
          have othersRest (other : Keyword) (notRest : other ∉ rest) :
              (start.set setting).setting? other = schema.setting? other := by
            rw [Schema.setting?_set, sameKeyword]
            split
            · rename_i same
              rw [same, isSet]
            · rename_i different
              exact others other fun isOther => (List.mem_cons.mp isOther).elim different notRest
          have unsetLater (other : Keyword) (isRest : other ∈ rest) :
              (start.set setting).setting? other = none := by
            have different : other ≠ keyword := fun same => notLater (same ▸ isRest)
            rw [Schema.setting?_set, sameKeyword, if_neg different]
            exact unsetRest other isRest
          simp only [Option.map_some, Schema.memberOf, List.singleton_append, keywords,
            Keyword.ofName?_name, Attempt.bind_eq_ok_iff, under_eq_ok_iff,
            each keyword setting isSet, Option.some.injEq, forall_eq']
          constructor
          · rintro ⟨_, ⟨recovered, rfl⟩, isRead⟩
            obtain ⟨recoveredRest, same⟩ :=
              (inductionHypothesis distinctRest othersRest unsetLater).mp isRead
            exact ⟨⟨recovered, recoveredRest⟩, same⟩
          · rintro ⟨⟨recovered, recoveredRest⟩, same⟩
            exact ⟨setting, ⟨recovered, rfl⟩,
              (inductionHypothesis distinctRest othersRest unsetLater).mpr ⟨recoveredRest, same⟩⟩

end Decode

namespace Schema

/-- The document of a schema is read as that schema, if no enumeration in the tree is without
values, and not at all if one is. -/
theorem ofJson_toJson_iff {schema read : Schema} (distinct : schema.DistinctValues) :
    ofJson schema.toJson = .ok read ↔ schema.InhabitedEnums ∧ read = schema := by
  induction schema using holdsInduction generalizing read with
  | step schema inductionHypothesis =>
      obtain ⟨distinctHere, distinctInside⟩ := distinctValues_iff.mp distinct
      have each (keyword : Keyword) (setting : Setting)
          (isSet : schema.setting? keyword = some setting)
          (read : Setting) :
          Decode.settingOf keyword setting.written = .ok read ↔
            (setting ≠ .enum [] ∧ ∀ inner ∈ setting.inner, inner.InhabitedEnums) ∧
              read = setting := by
        have sameKeyword := keyword_of_setting? isSet
        subst sameKeyword
        refine Decode.settingOf_written_iff ?_ fun inner isInner read => ?_
        · rintro texts rfl
          rw [(setting?_eq_enum_iff.mp isSet).2] at distinctHere
          exact distinctHere
        · have holds : schema.Holds inner := ⟨_, setting, isSet, isInner⟩
          exact inductionHypothesis inner holds (distinctInside inner holds)
      have isAll (keyword : Keyword) : keyword ∈ Keyword.all := by cases keyword <;> decide
      rw [toJson_eq]
      refine (Decode.keywords_written_iff each (by decide) (fun keyword other =>
        absurd (isAll keyword) other) fun keyword _ => setting?_empty keyword).trans ?_
      refine and_congr_left fun _ => ?_
      rw [inhabitedEnums_iff]
      constructor
      · intro recovers
        refine ⟨fun isEmpty => ?_, ?_⟩
        · exact (recovers .enum (isAll _) _ (setting?_eq_enum_iff.mpr ⟨rfl, isEmpty⟩)).1 rfl
        · rintro inner ⟨keyword, setting, isSet, isInner⟩
          exact (recovers keyword (isAll _) setting isSet).2 inner isInner
      · rintro ⟨inhabited, inside⟩ keyword - setting isSet
        refine ⟨?_, fun inner isInner => inside inner ⟨keyword, setting, isSet, isInner⟩⟩
        rintro rfl
        exact inhabited (setting?_eq_enum_iff.mp isSet).2

theorem inhabitedEnums_of_verify {schema : Schema} (verified : schema.verify = .ok ()) :
    schema.InhabitedEnums := by
  intro place node contains
  exact (verify_eq_ok_iff.mp verified place node contains).inhabited

/-- The document of a schema can be read unless an enumeration somewhere in it is without values,
and what is read is the schema itself, so schemas that were read and schemas that pass
verification survive being written.  Enumerated values are kept as a set, so none of them is
repeated.

Where the schema was read from a value, its document is the normal form of that value, but for
the order of keywords. -/
theorem ofJson_toJson_round_trip :
    (∀ schema : Schema, schema.DistinctValues →
      ((∃ read, ofJson schema.toJson = .ok read) ↔ schema.InhabitedEnums) ∧
      (∀ read, ofJson schema.toJson = .ok read → read = schema) ∧
      (schema.verify = .ok () → ofJson schema.toJson = .ok schema)) ∧
    ∀ value schema, ofJson value = .ok schema →
      ofJson schema.toJson = .ok schema ∧
      (value.proper = true → Rearranged .schema (value.normal .schema) schema.toJson) := by
  refine ⟨fun schema distinct => ⟨?_, fun read isRead => ?_, fun verified => ?_⟩,
    fun value schema isRead => ⟨?_, fun isProper => ?_⟩⟩
  · constructor
    · rintro ⟨read, isRead⟩
      exact ((ofJson_toJson_iff distinct).mp isRead).1
    · intro inhabited
      exact ⟨schema, (ofJson_toJson_iff distinct).mpr ⟨inhabited, rfl⟩⟩
  · exact ((ofJson_toJson_iff distinct).mp isRead).2
  · exact (ofJson_toJson_iff distinct).mpr ⟨inhabitedEnums_of_verify verified, rfl⟩
  · exact (ofJson_toJson_iff (distinctValues_of_ofJson isRead)).mpr
      ⟨inhabitedEnums_of_ofJson isRead, rfl⟩
  · exact rearranged_of_restores isProper ⟨schema, isRead, rfl⟩

/-- A verified schema is read back, and an enumeration without values is not.  A document with
its keywords in another order, one that does not count and a type in an object is normalised. -/
theorem ofJson_toJson_round_trip_normalises :
    ofJson (toJson { definitions := some [("node", {})], ref := some "node" }) =
      .ok { definitions := some [("node", {})], ref := some "node" } ∧
    (¬ ∃ read, ofJson (toJson { enum := some [] }) = .ok read) ∧
    Rearranged .schema
      (.object [("values", .object [("type", .string "string")]), ("ref", .string "node")])
      (.object [("ref", .string "node"), ("values", .object [("type", .string "string")])]) := by
  refine ⟨?_, ?_, ?_⟩
  · have isRead : ofJson (.object [("ref", .string "node"),
        ("definitions", .object [("node", .object [])])]) =
          .ok { definitions := some [("node", {})], ref := some "node" } := rfl
    exact (ofJson_toJson_round_trip.1 _ (distinctValues_of_ofJson isRead)).2.2 rfl
  · have distinct : DistinctValues { enum := some [] } := by
      refine distinctValues_iff.mpr ⟨List.nodup_nil, ?_⟩
      rintro inner ⟨keyword, setting, isSet, isInner⟩
      cases keyword <;> cases isSet
      cases isInner
    intro canBeRead
    have inhabited := ((ofJson_toJson_round_trip.1 _ distinct).1).mp canBeRead
    exact inhabited [] _ .self rfl
  · exact (ofJson_toJson_round_trip.2
      (.object [("note", .null), ("values", .object [("type", .object [("string", .null)])]),
        ("ref", .string "node")])
      { ref := some "node", values := some { type := some .string } } rfl).2 rfl

end Schema

end FormSchema
