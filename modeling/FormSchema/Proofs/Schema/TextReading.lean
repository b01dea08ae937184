import FormSchema.Proofs.Schema.PrimitiveReading
import FormSchema.Proofs.Schema.Repetition

/-!
# Reading a schema straight from a text

A schema can be read from a text in two ways: straight, with keywords set as they come and values
of unknown members skipped, or by way of a value.  Wherever the value can be read, the straight
way succeeds exactly if the transcript is tidy, and gives the same schema.
-/

namespace FormSchema

/-! ## Settings -/

section Settings

variable {document : Json} {setting : Setting}

/-- Where a keyword is set to what is read, its meaning is that of what is read. -/
theorem meansSetting_iff {α : Type} {keyword : Keyword} {make : α → Setting}
    {decode : Json → Except DecodeError α}
    (isSetting : ∀ value, Decode.settingOf keyword value = make <$> decode value) :
    MeansSetting keyword document setting ↔
      ∃ read, (Tidy keyword.role document ∧ decode document.merged = .ok read) ∧
        setting = make read := by
  rw [MeansSetting, isSetting]
  constructor
  · rintro ⟨isTidy, isSet⟩
    obtain ⟨read, isRead, rfl⟩ := Attempt.map_eq_ok_iff.mp isSet
    exact ⟨read, ⟨isTidy, isRead⟩, rfl⟩
  · rintro ⟨read, ⟨isTidy, isRead⟩, rfl⟩
    exact ⟨isTidy, Attempt.map_eq_ok_iff.mpr ⟨read, isRead, rfl⟩⟩

theorem meansSetting_ref_iff :
    MeansSetting .ref document setting ↔ ∃ text, document = .string text ∧ setting = .ref text := by
  rw [meansSetting_iff (Decode.settingOf_eq .ref)]
  refine exists_congr fun text => and_congr_left fun _ => ?_
  constructor
  · rintro ⟨⟨isShaped, -⟩, isRead⟩
    obtain ⟨_, rfl⟩ := shaped_string_iff.mp isShaped
    exact Decode.string_eq_ok_iff.mp isRead
  · rintro rfl
    exact ⟨⟨.string text, not_repeats_of_inside fun _ => rfl⟩, rfl⟩

theorem meansSetting_additionalProperties_iff :
    MeansSetting .additionalProperties document setting ↔
      ∃ truth, document = .bool truth ∧ setting = .additionalProperties truth := by
  rw [meansSetting_iff (Decode.settingOf_eq .additionalProperties)]
  refine exists_congr fun truth => and_congr_left fun _ => ?_
  constructor
  · rintro ⟨⟨isShaped, -⟩, isRead⟩
    obtain ⟨_, rfl⟩ := shaped_boolean_iff.mp isShaped
    exact Decode.boolean_eq_ok_iff.mp isRead
  · rintro rfl
    exact ⟨⟨.boolean truth, not_repeats_of_inside fun _ => rfl⟩, rfl⟩

theorem meansSetting_type_iff :
    MeansSetting .type document setting ↔
      ∃ primitive, Decode.primitive document = .ok primitive ∧ setting = .type primitive := by
  rw [meansSetting_iff (Decode.settingOf_eq .type)]
  refine exists_congr fun primitive => and_congr_left fun _ => ?_
  have isMerged (isShaped : Shaped .type document) : document.merged = document := by
    cases isShaped <;> rfl
  constructor
  · rintro ⟨⟨isShaped, -⟩, isRead⟩
    rwa [isMerged isShaped] at isRead
  · intro isRead
    have isShaped : Shaped .type document := Role.readable_iff_shaped.mp ⟨primitive, isRead⟩
    exact ⟨⟨isShaped, not_repeats_of_inside fun _ => rfl⟩, (isMerged isShaped).symm ▸ isRead⟩

theorem meansSetting_enum_iff :
    MeansSetting .enum document setting ↔
      ∃ texts, document = .ofStrings texts ∧ ∃ checked, Decode.enumeration texts = .ok checked ∧
        setting = .enum checked := by
  rw [MeansSetting, Decode.settingOf_eq]
  simp only [Attempt.bind_eq_ok_iff, Decode.strings_eq_ok_iff]
  constructor
  · rintro ⟨⟨isShaped, -⟩, texts, sameTexts, checked, isChecked, ⟨⟩⟩
    obtain ⟨values, rfl, -⟩ := shaped_enum_iff.mp isShaped
    rw [Json.merged_ofStrings] at sameTexts
    exact ⟨texts, sameTexts, checked, isChecked, rfl⟩
  · rintro ⟨texts, rfl, checked, isChecked, rfl⟩
    obtain ⟨inhabited, distinct, -⟩ := Decode.enumeration_eq_ok_iff.mp isChecked
    exact ⟨⟨.enum inhabited distinct, not_repeats_of_inside fun _ => rfl⟩, texts,
      Json.merged_ofStrings texts, checked, isChecked, rfl⟩

end Settings

namespace Reader

variable {levels : Nat} {cursor behind : Cursor}

/-! ## Steps -/

theorem has_eq_isSome (schema : Schema) (keyword : Keyword) :
    schema.has keyword = (schema.setting? keyword).isSome := by
  cases keyword <;> rw [Schema.has, Schema.setting?, Option.isSome_map]

theorem setOnce_eq_ok_iff {schema more : Schema} {keyword : Keyword} {setting : Setting} :
    setOnce schema keyword setting = .ok more ↔
      schema.setting? keyword = none ∧ more = schema.set setting := by
  rw [setOnce, has_eq_isSome]
  cases schema.setting? keyword with
  | none =>
      rw [Option.isSome_none, if_neg Bool.false_ne_true, Except.ok.injEq, eq_comm]
      exact (and_iff_right rfl).symm
  | some old =>
      refine iff_of_false (fun isSet => ?_) fun isSet => Option.some_ne_none old isSet.1
      cases isSet

/-- A keyword is set to what a reader gives, if it has not been set. -/
theorem setOnce_agrees {α : Type} {reader : Reader α} {means : Json → α → Prop}
    (agrees : Agrees levels reader means) {keyword : Keyword} {make : α → Setting}
    (settings : ∀ document setting, MeansSetting keyword document setting ↔
      ∃ read, means document read ∧ setting = make read)
    {document : Json} (isRead : transcript levels cursor = .ok (document, behind))
    {gathered more : Schema} {reached : Cursor} :
    (do return setOnce gathered keyword (make (← reader)) : Reader (Except DecodeError Schema))
        cursor = .ok (.ok more, reached) ↔
      reached = behind ∧ gathered.setting? keyword = none ∧
        ∃ setting, MeansSetting keyword document setting ∧ more = gathered.set setting := by
  simp only [settings]
  rw [bind_eq_ok_iff]
  constructor
  · rintro ⟨read, _, isValue, isResult⟩
    obtain ⟨isSet, rfl⟩ := pure_eq_ok_iff.mp isResult
    obtain ⟨isEnd, isMeaning⟩ := (agrees _ _ _ isRead _ _).mp isValue
    obtain ⟨unset, rfl⟩ := setOnce_eq_ok_iff.mp isSet.symm
    exact ⟨isEnd, unset, _, ⟨read, isMeaning, rfl⟩, rfl⟩
  · rintro ⟨rfl, unset, _, ⟨read, isMeaning, rfl⟩, rfl⟩
    refine ⟨read, reached, (agrees _ _ _ isRead _ _).mpr ⟨rfl, isMeaning⟩, ?_⟩
    exact pure_eq_ok_iff.mpr ⟨(setOnce_eq_ok_iff.mpr ⟨unset, rfl⟩).symm, rfl⟩

/-- A member that does not count is skipped. -/
theorem skip_agrees {σ : Type} {document : Json}
    (isRead : transcript levels cursor = .ok (document, behind)) {gathered more : σ}
    {reached : Cursor} :
    (do
      skipValue
      return .ok gathered : Reader (Except DecodeError σ)) cursor = .ok (.ok more, reached) ↔
      reached = behind ∧ more = gathered := by
  rw [bind_eq_ok_iff]
  constructor
  · rintro ⟨_, _, isSkipped, ⟨⟩⟩
    exact ⟨((agrees_skipValue _ _ _ isRead _ _).mp isSkipped).1, rfl⟩
  · rintro ⟨rfl, rfl⟩
    exact ⟨(), reached, (agrees_skipValue _ _ _ isRead _ _).mpr ⟨rfl, trivial⟩, rfl⟩

/-- An enumeration is set to the strings of a list, if they can be enumerated. -/
theorem setEnumeration_agrees {step : PathStep} {document : Json}
    (isRead : transcript levels cursor = .ok (document, behind)) {gathered more : Schema}
    {reached : Cursor} :
    (do
      let values ← stringList levels .sequence
      return do
        let checked ← Decode.under step (Decode.enumeration values)
        setOnce gathered .enum (.enum checked) : Reader (Except DecodeError Schema)) cursor =
        .ok (.ok more, reached) ↔
      reached = behind ∧ gathered.setting? .enum = none ∧
        ∃ setting, MeansSetting .enum document setting ∧ more = gathered.set setting := by
  simp only [meansSetting_enum_iff]
  rw [bind_eq_ok_iff]
  constructor
  · rintro ⟨texts, _, areStrings, isResult⟩
    obtain ⟨isSet, rfl⟩ := pure_eq_ok_iff.mp isResult
    obtain ⟨isEnd, same⟩ := (agrees_stringList levels _ _ _ _ isRead _ _).mp areStrings
    obtain ⟨checked, isChecked, isOnce⟩ := Attempt.bind_eq_ok_iff.mp isSet.symm
    obtain ⟨unset, rfl⟩ := setOnce_eq_ok_iff.mp isOnce
    exact ⟨isEnd, unset, _, ⟨texts, same, checked, Decode.under_eq_ok_iff.mp isChecked, rfl⟩, rfl⟩
  · rintro ⟨rfl, unset, _, ⟨texts, same, checked, isChecked, rfl⟩, rfl⟩
    refine ⟨texts, reached, (agrees_stringList levels _ _ _ _ isRead _ _).mpr ⟨rfl, same⟩, ?_⟩
    refine pure_eq_ok_iff.mpr ⟨(Attempt.bind_eq_ok_iff.mpr ⟨checked, ?_, ?_⟩).symm, rfl⟩
    · exact Decode.under_eq_ok_iff.mpr isChecked
    · exact setOnce_eq_ok_iff.mpr ⟨unset, rfl⟩

/-- A part of a discriminator is set to what a reader gives, if it has not been set. -/
theorem setPart_agrees {α : Type} {reader : Reader α} {means : Json → α → Prop}
    (agrees : Agrees levels reader means) {document : Json}
    (isRead : transcript levels cursor = .ok (document, behind)) {name : String} {given : Option α}
    {make : α → DiscriminatorMembers} {more : DiscriminatorMembers} {reached : Cursor} :
    (do
      let read ← reader
      if given.isSome then
        return .error (.here (.duplicateField name))
      else
        return .ok (make read) :
        Reader (Except DecodeError DiscriminatorMembers)) cursor = .ok (.ok more, reached) ↔
      reached = behind ∧ given = none ∧ ∃ read, means document read ∧ more = make read := by
  rw [bind_eq_ok_iff]
  cases given with
  | some old =>
      refine iff_of_false ?_ nofun
      rintro ⟨_, _, -, ⟨⟩⟩
  | none =>
      constructor
      · rintro ⟨read, _, isValue, ⟨⟩⟩
        obtain ⟨isEnd, isMeaning⟩ := (agrees _ _ _ isRead _ _).mp isValue
        exact ⟨isEnd, rfl, read, isMeaning, rfl⟩
      · rintro ⟨rfl, -, read, isMeaning, rfl⟩
        exact ⟨read, reached, (agrees _ _ _ isRead _ _).mpr ⟨rfl, isMeaning⟩, rfl⟩

mutual

/-- A schema is read from exactly the tidy transcripts, and is what is read after merging. -/
theorem agrees_schema (levels : Nat) : Agrees levels (schema levels) MeansSchema := by
  match levels with
  | 0 =>
      exact agrees_tooDeep
        (fun _ _ isMeaning => isMeaning.1.1.exists_members ⟨"ref", .string, rfl⟩) _
  | levels + 1 =>
      have ofSchema := agrees_schema levels
      have ofSchemas := agrees_schemas levels
      have ofDiscriminator := agrees_discriminator levels
      rw [schema]
      refine (agrees_object acceptsKeyword ?_ _).congr fun document read => ?_
      · intro cursor document behind isRead gathered name more reached
        dsimp only
        cases isKeyword : Keyword.ofName? name with
        | none =>
            rw [acceptsKeyword, isKeyword]
            exact skip_agrees isRead
        | some keyword =>
            obtain rfl := Keyword.name_of_ofName? isKeyword
            rw [acceptsKeyword_iff]
            cases keyword with
            | definitions =>
                exact setOnce_agrees ofSchemas
                  (fun _ _ => meansSetting_iff (Decode.settingOf_eq .definitions)) isRead
            | ref =>
                exact setOnce_agrees (agrees_stringValue _)
                  (fun _ _ => meansSetting_ref_iff) isRead
            | type =>
                exact setOnce_agrees (agrees_primitive _)
                  (fun _ _ => meansSetting_type_iff) isRead
            | enum => exact setEnumeration_agrees isRead
            | elements =>
                exact setOnce_agrees ofSchema
                  (fun _ _ => meansSetting_iff (Decode.settingOf_eq .elements)) isRead
            | properties =>
                exact setOnce_agrees ofSchemas
                  (fun _ _ => meansSetting_iff (Decode.settingOf_eq .properties)) isRead
            | optionalProperties =>
                exact setOnce_agrees ofSchemas
                  (fun _ _ => meansSetting_iff (Decode.settingOf_eq .optionalProperties)) isRead
            | additionalProperties =>
                exact setOnce_agrees (agrees_booleanValue _)
                  (fun _ _ => meansSetting_additionalProperties_iff) isRead
            | values =>
                exact setOnce_agrees ofSchema
                  (fun _ _ => meansSetting_iff (Decode.settingOf_eq .values)) isRead
            | discriminator =>
                exact setOnce_agrees ofDiscriminator
                  (fun _ _ => meansSetting_iff (Decode.settingOf_eq .discriminator)) isRead
      · constructor
        · rintro ⟨documents, _, rfl, areGathered, ⟨⟩⟩
          exact gathered_schema_iff.mp areGathered
        · intro isMeaning
          obtain ⟨documents, rfl⟩ := isMeaning.1.1.exists_members ⟨"ref", .string, rfl⟩
          exact ⟨documents, read, rfl, gathered_schema_iff.mpr isMeaning, rfl⟩

theorem agrees_schemas (levels : Nat) : Agrees levels (schemas levels) MeansSchemas := by
  match levels with
  | 0 =>
      exact agrees_tooDeep
        (fun _ _ isMeaning => isMeaning.1.1.exists_members ⟨"", .schema, rfl⟩) _
  | levels + 1 =>
      have ofSchema := agrees_schema levels
      rw [schemas]
      refine (agrees_object acceptsField ?_ _).congr fun document read => ?_
      · intro cursor document behind isRead gathered name more reached
        rw [bind_eq_ok_iff, acceptsField]
        constructor
        · rintro ⟨inner, _, isInner, ⟨⟩⟩
          obtain ⟨isEnd, isMeaning⟩ := (ofSchema _ _ _ isRead _ _).mp isInner
          exact ⟨isEnd, inner, isMeaning, rfl⟩
        · rintro ⟨rfl, inner, isMeaning, rfl⟩
          exact ⟨inner, reached, (ofSchema _ _ _ isRead _ _).mpr ⟨rfl, isMeaning⟩, rfl⟩
      · constructor
        · rintro ⟨documents, _, rfl, areGathered, ⟨⟩⟩
          exact gathered_schemas_iff.mp areGathered
        · intro isMeaning
          obtain ⟨documents, rfl⟩ := isMeaning.1.1.exists_members ⟨"", .schema, rfl⟩
          exact ⟨documents, read, rfl, gathered_schemas_iff.mpr isMeaning, rfl⟩

theorem agrees_discriminator (levels : Nat) :
    Agrees levels (discriminator levels) MeansDiscriminator := by
  match levels with
  | 0 =>
      exact agrees_tooDeep
        (fun _ _ isMeaning => isMeaning.1.1.exists_members ⟨"tag", .string, rfl⟩) _
  | levels + 1 =>
      have ofSchemas := agrees_schemas levels
      rw [discriminator]
      refine (agrees_object acceptsPart ?_ _).congr fun document rule => ?_
      · intro cursor document behind isRead gathered name more reached
        dsimp only
        rw [acceptsPart]
        split
        · exact setPart_agrees (agrees_stringValue _) isRead
        · split
          · exact setPart_agrees ofSchemas isRead
          · exact skip_agrees isRead
      · constructor
        · rintro ⟨documents, last, rfl, areGathered, isRule⟩
          exact gathered_discriminator_iff.mp ⟨last, areGathered, isRule⟩
        · intro isMeaning
          obtain ⟨documents, rfl⟩ := isMeaning.1.1.exists_members ⟨"tag", .string, rfl⟩
          obtain ⟨last, areGathered, isRule⟩ := gathered_discriminator_iff.mpr isMeaning
          exact ⟨documents, last, rfl, areGathered, isRule⟩

end

end Reader

/-! ## Texts -/

section Texts

variable {text : String} {document value : Json} {schema : Schema}

/-- A text that is read has a transcript, of which the value is what remains after merging. -/
theorem Json.exists_transcript_of_read (isRead : Json.read text = .ok value) :
    ∃ document behind, Json.transcript text = .ok document ∧ document.merged = value ∧
      Reader.transcript Reader.nestingLimit (.start text) = .ok (document, behind) := by
  rw [Json.read_eq_merged] at isRead
  obtain ⟨document, isTranscript, isMerged⟩ := Attempt.map_eq_ok_iff.mp isRead
  obtain ⟨behind, isDocument, -⟩ := Json.transcript_eq_ok_iff.mp isTranscript
  exact ⟨document, behind, isTranscript, isMerged, isDocument⟩

theorem Schema.readLeading_eq_ok_iff :
    readLeading text = .ok schema ↔
      ∃ behind, Reader.schema Reader.nestingLimit (.start text) = .ok (schema, behind) := by
  refine Attempt.map_eq_ok_iff.trans ?_
  constructor
  · rintro ⟨⟨_, behind⟩, isRead, rfl⟩
    exact ⟨behind, isRead⟩
  · rintro ⟨behind, isRead⟩
    exact ⟨(schema, behind), isRead, rfl⟩

/-- Where a text has a transcript, a schema is read from the text exactly if it is the meaning of
the transcript. -/
theorem Schema.readLeading_iff_meansSchema {behind : Cursor}
    (isTranscript : Reader.transcript Reader.nestingLimit (.start text) = .ok (document, behind)) :
    readLeading text = .ok schema ↔ MeansSchema document schema := by
  rw [readLeading_eq_ok_iff]
  have agrees := Reader.agrees_schema _ _ _ _ isTranscript schema
  constructor
  · rintro ⟨reached, isRead⟩
    exact ((agrees reached).mp isRead).2
  · intro isMeaning
    exact ⟨behind, (agrees behind).mpr ⟨rfl, isMeaning⟩⟩

/-- What follows a schema in a text makes no difference. -/
theorem Schema.readLeading_append {behind : Cursor}
    (isTranscript : Reader.transcript Reader.nestingLimit (.start text) = .ok (document, behind))
    (isRead : readLeading text = .ok schema) (more : String) :
    readLeading (text ++ more) = .ok schema := by
  have isMeaning := (readLeading_iff_meansSchema isTranscript).mp isRead
  cases isMeaning.1.1 with
  | schema =>
      have extended := Reader.transcript_object_extend isTranscript more.toList
      rw [← Cursor.start_append] at extended
      exact (readLeading_iff_meansSchema extended).mpr isMeaning

/-- Reading a schema straight from a text agrees with reading it from the value of the text.

What is read straight is read from the value, whatever follows the text.  If the text repeats no
name, what is read from the value is read straight.  If the text repeats a keyword in an object
that stands for a schema or a discriminator, nothing is read straight, although the value has the
last member of each name and may well be the document of a schema. -/
theorem Schema.readLeading_agrees (isRead : Json.read text = .ok value) :
    ∃ document, Json.transcript text = .ok document ∧ document.merged = value ∧
      (∀ members name, (Json.object members).merged.member? name =
        (members.reverse.lookup name).map Json.merged) ∧
      (∀ schema, readLeading text = .ok schema →
        ofJson value = .ok schema ∧ ∀ more : String, readLeading (text ++ more) = .ok schema) ∧
      (document.proper = true → ∀ schema, ofJson value = .ok schema →
        readLeading text = .ok schema) ∧
      (Repeats .schema document → ∃ error, readLeading text = .error error) := by
  obtain ⟨document, behind, isDocument, rfl, isTranscript⟩ := Json.exists_transcript_of_read isRead
  have described (schema : Schema) := @readLeading_iff_meansSchema _ _ schema _ isTranscript
  refine ⟨document, isDocument, rfl, fun members name => ?_, fun schema isSchema => ⟨?_, ?_⟩,
    fun isProper schema ofValue => ?_, fun repeats => ?_⟩
  · rw [Json.merged, Json.member?, Json.lookup_mergedMembers, List.lookup_nil, Option.or_none]
  · exact ((described schema).mp isSchema).2
  · exact readLeading_append isTranscript isSchema
  · refine (described schema).mpr ⟨⟨?_, not_repeats_of_proper isProper⟩, ofValue⟩
    rw [Json.merged_of_proper isProper] at ofValue
    exact Role.readable_iff_shaped.mp ⟨schema, ofValue⟩
  · cases isResult : readLeading text with
    | error error => exact ⟨error, rfl⟩
    | ok schema => exact absurd repeats ((described schema).mp isResult).1.2

end Texts

/-- A text that names two references has a value that is the document of a schema, but is not
read straight.  A text without repetitions is, also if it goes on. -/
theorem Schema.readLeading_agrees_references :
    (∃ value, Json.read "\x7b\"ref\":\"a\",\"ref\":\"b\"\x7d" = .ok value ∧
      ofJson value = .ok { ref := some "b" }) ∧
    (∃ error, readLeading "\x7b\"ref\":\"a\",\"ref\":\"b\"\x7d" = .error error) ∧
    readLeading ("\x7b\"ref\":\"a\"\x7d" ++ ", and more") = .ok { ref := some "a" } := by
  have startTwice : Cursor.start "\x7b\"ref\":\"a\",\"ref\":\"b\"\x7d" =
      ⟨['\x7b', '"', 'r', 'e', 'f', '"', ':', '"', 'a', '"', ',',
        '"', 'r', 'e', 'f', '"', ':', '"', 'b', '"', '\x7d'], ⟨1, 0⟩⟩ := Cursor.start_ofList _
  have startOnce : Cursor.start "\x7b\"ref\":\"a\"\x7d" =
      ⟨['\x7b', '"', 'r', 'e', 'f', '"', ':', '"', 'a', '"', '\x7d'], ⟨1, 0⟩⟩ :=
    Cursor.start_ofList _
  have readTwice : Json.read "\x7b\"ref\":\"a\",\"ref\":\"b\"\x7d" =
      .ok (.object [("ref", .string "b")]) := by
    rw [Json.read, Reader.run, startTwice]
    rfl
  have transcriptTwice : Json.transcript "\x7b\"ref\":\"a\",\"ref\":\"b\"\x7d" =
      .ok (.object [("ref", .string "a"), ("ref", .string "b")]) := by
    rw [Json.transcript, Reader.run, startTwice]
    rfl
  have readOnce : Json.read "\x7b\"ref\":\"a\"\x7d" = .ok (.object [("ref", .string "a")]) := by
    rw [Json.read, Reader.run, startOnce]
    rfl
  have transcriptOnce : Json.transcript "\x7b\"ref\":\"a\"\x7d" =
      .ok (.object [("ref", .string "a")]) := by
    rw [Json.transcript, Reader.run, startOnce]
    rfl
  refine ⟨⟨_, readTwice, rfl⟩, ?_, ?_⟩
  · obtain ⟨document, isTranscript, -, -, -, -, ofRepeats⟩ := readLeading_agrees readTwice
    rw [transcriptTwice] at isTranscript
    cases isTranscript
    exact ofRepeats (@Repeats.here .schema .string "ref" _ rfl rfl (by decide))
  · obtain ⟨document, isTranscript, -, -, straight, ofProper, -⟩ := readLeading_agrees readOnce
    rw [transcriptOnce] at isTranscript
    cases isTranscript
    exact (straight _ (ofProper rfl _ rfl)).2 ", and more"

end FormSchema
