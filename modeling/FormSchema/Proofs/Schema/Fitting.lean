import FormSchema.Proofs.Decoding.ReadBack
import FormSchema.Proofs.Schema.RoundTrip
import FormSchema.Proofs.Schema.TextReading

/-!
# What reading a schema from a text guarantees

A schema that has been read from a text obeys the bounds of reading.  Every container takes one
level of nesting, names of schemas and enumerated values do not recur, and an enumeration has a
value.  `Schema.Fits` says so of the schema itself, whatever else the text had in it: it counts
the containers that the document of the schema needs.

So the document of a schema that has been read can be read in turn, with as many levels.
-/

namespace FormSchema

namespace Setting

/-- The names or texts that a keyword is set to. -/
def entries : Setting → List String
  | .definitions fields => Members.names fields
  | .properties fields => Members.names fields
  | .optionalProperties fields => Members.names fields
  | .enum texts => texts
  | .discriminator rule => Members.names rule.mapping
  | _ => []

/-- How many containers stand around the schemas or texts that a keyword is set to. -/
def containers : Setting → Nat
  | .definitions _ => 1
  | .properties _ => 1
  | .optionalProperties _ => 1
  | .enum _ => 1
  | .discriminator _ => 2
  | _ => 0

end Setting

mutual

/-- A schema obeys the bounds of reading with so many levels of nesting. -/
inductive Schema.Fits : Nat → Schema → Prop where
  | intro {levels : Nat} {schema : Schema}
      (each : ∀ keyword setting, schema.setting? keyword = some setting →
        Setting.Fits levels setting) :
      Schema.Fits (levels + 1) schema

/-- What a keyword is set to obeys the bounds of reading with so many levels of nesting. -/
inductive Setting.Fits : Nat → Setting → Prop where
  | intro {levels inside : Nat} {setting : Setting} (room : inside + setting.containers = levels)
      (distinct : setting.entries.Nodup) (inhabited : setting ≠ .enum [])
      (each : ∀ inner ∈ setting.inner, Schema.Fits inside inner) :
      Setting.Fits levels setting

end

section Bounds

variable {levels : Nat} {schema : Schema} {setting : Setting}

theorem Schema.fits_empty : Schema.Fits (levels + 1) {} := by
  refine .intro fun keyword setting isSet => ?_
  rw [Schema.setting?_empty] at isSet
  cases isSet

theorem Schema.Fits.set (fits : schema.Fits (levels + 1)) (settingFits : setting.Fits levels) :
    (schema.set setting).Fits (levels + 1) := by
  obtain ⟨each⟩ := fits
  refine .intro fun keyword other isSet => ?_
  rw [Schema.setting?_set] at isSet
  split at isSet
  · cases isSet
    exact settingFits
  · exact each keyword other isSet

/-! ## The trees of schemas -/

theorem Schema.Fits.holds {inner : Schema} (fits : schema.Fits levels)
    (holds : schema.Holds inner) : ∃ inside, inner.Fits inside := by
  obtain ⟨each⟩ := fits
  obtain ⟨keyword, setting, isSet, isInner⟩ := holds
  obtain ⟨-, -, -, eachInner⟩ := each keyword setting isSet
  exact ⟨_, eachInner inner isInner⟩

/-- An enumeration has values, and none of them twice. -/
theorem Schema.Fits.enum {texts : List String} (fits : schema.Fits levels)
    (isSet : schema.enum = some texts) : texts ≠ [] ∧ texts.Nodup := by
  obtain ⟨each⟩ := fits
  obtain ⟨-, distinct, inhabited, -⟩ := each .enum _ (Schema.setting?_eq_enum_iff.mpr ⟨rfl, isSet⟩)
  exact ⟨fun isEmpty => inhabited (congrArg Setting.enum isEmpty), distinct⟩

/-- The bounds are obeyed by every schema in the tree. -/
theorem Schema.Fits.contains (fits : schema.Fits levels) :
    ∀ place node, schema.Contains place node → ∃ inside, node.Fits inside := by
  induction schema using Schema.holdsInduction generalizing levels with
  | step schema inductionHypothesis =>
      refine Schema.forall_contains_iff.mpr ⟨⟨levels, fits⟩, fun inner holds => ?_⟩
      obtain ⟨inside, innerFits⟩ := fits.holds holds
      exact inductionHypothesis inner holds innerFits

theorem Schema.Fits.distinctValues (fits : schema.Fits levels) : schema.DistinctValues := by
  intro place node contains
  obtain ⟨inside, nodeFits⟩ := fits.contains place node contains
  cases isSet : node.enum with
  | none => exact List.nodup_nil
  | some texts => exact (nodeFits.enum isSet).2

theorem Schema.Fits.inhabitedEnums (fits : schema.Fits levels) : schema.InhabitedEnums := by
  intro place node contains isSet
  obtain ⟨inside, nodeFits⟩ := fits.contains place node contains
  exact (nodeFits.enum isSet).1 rfl

end Bounds

/-! ## The documents of schemas -/

section Documents

variable {levels : Nat}

theorem Schema.legible_fields {fields : List (String × Schema)}
    (each : ∀ inner ∈ fields.map Prod.snd, inner.toJson.Legible levels) :
    (Json.object (fieldsToJson fields)).Legible (levels + 1) := by
  refine .object fun name content isMember => ?_
  obtain ⟨inner, isField, rfl⟩ := exists_field_of_mem isMember
  exact each inner (List.mem_map_of_mem (f := Prod.snd) isField)

theorem Schema.legible_toJson {schema : Schema}
    (each : ∀ keyword content, schema.written keyword = some content → content.Legible levels) :
    schema.toJson.Legible (levels + 1) := by
  rw [toJson_eq]
  refine .object fun name content isMember => ?_
  obtain ⟨keyword, isWritten⟩ := exists_written_of_mem isMember
  exact each keyword content isWritten

/-- What is written for a keyword takes no more levels of nesting than there may be, if this is so
for the schemas that it is set to. -/
theorem Setting.Fits.legible {setting : Setting} (fits : setting.Fits levels)
    (below : ∀ inner ∈ setting.inner, ∀ inside, inner.Fits inside → inner.toJson.Legible inside) :
    setting.written.Legible levels := by
  obtain ⟨rfl, -, -, each⟩ := fits
  have innerLegible (inner : Schema) (isInner : inner ∈ setting.inner) :=
    below inner isInner _ (each inner isInner)
  cases setting with
  | ref name => exact .string name
  | type primitive => exact .string primitive.name
  | additionalProperties allowed => exact .bool allowed
  | enum texts => exact Json.legible_ofStrings texts
  | elements item => exact innerLegible item (List.mem_singleton_self item)
  | values member => exact innerLegible member (List.mem_singleton_self member)
  | definitions | properties | optionalProperties => exact Schema.legible_fields innerLegible
  | discriminator rule =>
      refine .object fun name content isMember => ?_
      rcases List.mem_pair.mp isMember with same | same <;> cases same
      · exact .string rule.tag
      · exact Schema.legible_fields innerLegible

/-- What is written for a keyword is proper, if this is so for the schemas that it is set to. -/
theorem Setting.Fits.proper {setting : Setting} (fits : setting.Fits levels)
    (below : ∀ inner ∈ setting.inner, ∀ inside, inner.Fits inside →
      inner.toJson.proper = true) :
    setting.written.proper = true := by
  obtain ⟨-, distinct, -, each⟩ := fits
  have innerProper (inner : Schema) (isInner : inner ∈ setting.inner) :=
    below inner isInner _ (each inner isInner)
  have fieldsProper (fields : List (String × Schema)) (distinct : (Members.names fields).Nodup)
      (innerProper : ∀ inner ∈ fields.map Prod.snd, inner.toJson.proper = true) :
      (Json.object (Schema.fieldsToJson fields)).proper = true :=
    Schema.proper_fields_iff.mpr ⟨distinct, fun _ inner isField =>
      innerProper inner (List.mem_map_of_mem (f := Prod.snd) isField)⟩
  cases setting with
  | ref | type | additionalProperties => rfl
  | enum texts => exact Decode.proper_ofStrings texts
  | elements item => exact innerProper item (List.mem_singleton_self item)
  | values member => exact innerProper member (List.mem_singleton_self member)
  | definitions fields | properties fields | optionalProperties fields =>
      exact fieldsProper fields distinct innerProper
  | discriminator rule =>
      exact Setting.proper_discriminator (fieldsProper rule.mapping distinct innerProper)

/-- The document of a schema takes no more levels of nesting than the schema may have, and repeats
no name. -/
theorem Schema.Fits.legible_and_proper {schema : Schema} (fits : schema.Fits levels) :
    schema.toJson.Legible levels ∧ schema.toJson.proper = true := by
  induction schema using Schema.holdsInduction generalizing levels with
  | step schema inductionHypothesis =>
      obtain ⟨each⟩ := fits
      constructor
      · refine Schema.legible_toJson fun keyword content isWritten => ?_
        rw [Schema.written_eq] at isWritten
        obtain ⟨setting, isSet, rfl⟩ := Option.map_eq_some_iff.mp isWritten
        exact (each keyword setting isSet).legible fun inner isInner inside innerFits =>
          (inductionHypothesis inner ⟨keyword, setting, isSet, isInner⟩ innerFits).1
      · refine Schema.proper_toJson_iff.mpr fun keyword content isWritten => ?_
        rw [Schema.written_eq] at isWritten
        obtain ⟨setting, isSet, rfl⟩ := Option.map_eq_some_iff.mp isWritten
        exact (each keyword setting isSet).proper fun inner isInner inside innerFits =>
          (inductionHypothesis inner ⟨keyword, setting, isSet, isInner⟩ innerFits).2

end Documents

/-! ## Readers of schemas -/

/-- Named schemas obey the bounds with so many levels, one of which they take together. -/
inductive Schema.FieldsFit : Nat → List (String × Schema) → Prop where
  | intro {levels : Nat} {fields : List (String × Schema)}
      (distinct : (Members.names fields).Nodup)
      (each : ∀ inner ∈ fields.map Prod.snd, inner.Fits levels) : FieldsFit (levels + 1) fields

namespace Reader

variable {levels : Nat}

/-- A keyword that is set once is set to something that obeys the bounds. -/
theorem gathers_setOnce {gathered : Schema} {keyword : Keyword} {setting : Setting}
    (fits : gathered.Fits (levels + 1)) (settingFits : setting.Fits levels) :
    Gathers (Schema.Fits (levels + 1)) (setOnce gathered keyword setting) := by
  intro changed isSet
  rw [setOnce] at isSet
  split at isSet
  · cases isSet
  · cases isSet
    exact fits.set settingFits

/-- A keyword is set to what a reader gives. -/
theorem yields_setOnce {α : Type} {gathered : Schema} {keyword : Keyword} {reader : Reader α}
    {setting : α → Setting} {property : α → Prop} (fits : gathered.Fits (levels + 1))
    (yields : Yields property reader)
    (settingFits : ∀ read, property read → (setting read).Fits levels) :
    Yields (Gathers (Schema.Fits (levels + 1)))
      (do return setOnce gathered keyword (setting (← reader))) :=
  yields.bind fun read holds => yields_pure (gathers_setOnce fits (settingFits read holds))

/-- A list takes a level of nesting. -/
theorem yields_stringList (levels : Nat) (expected : Expected) :
    Yields (fun _ => ∃ inside, levels = inside + 1) (stringList levels expected) := by
  refine yields_bind fun _ => yields_bind fun next => ?_
  split
  · cases levels with
    | zero => exact yields_failAhead _
    | succ levels => exact yields_of_forall fun _ => ⟨levels, rfl⟩
  · exact yields_wrongKind expected

mutual

/-- Every schema that is read obeys the bounds. -/
theorem yields_schema (levels : Nat) : Yields (Schema.Fits levels) (schema levels) := by
  match levels with
  | 0 => exact yields_objectOr (yields_failAhead _) _
  | levels + 1 =>
      refine yields_objectOr (yields_object (Schema.Fits (levels + 1)) Schema.fits_empty ?_ ?_) _
      · intro gathered name fits
        split
        · exact yields_bind fun _ => yields_pure (by rintro _ ⟨⟩; exact fits)
        · refine yields_setOnce fits (yields_schemas levels) ?_
          rintro fields ⟨distinct, each⟩
          exact .intro rfl distinct nofun each
        · refine yields_setOnce fits (yields_of_forall fun _ => trivial) fun name (_ : True) => ?_
          exact .intro rfl List.nodup_nil nofun (List.forall_mem_nil _)
        · refine yields_setOnce fits (yields_of_forall fun _ => trivial) fun type (_ : True) => ?_
          exact .intro rfl List.nodup_nil nofun (List.forall_mem_nil _)
        · refine (yields_stringList levels _).bind fun values isList => yields_pure ?_
          intro changed isSet
          obtain ⟨inside, rfl⟩ := isList
          obtain ⟨checked, isChecked, isEnum⟩ := Attempt.bind_eq_ok_iff.mp isSet
          obtain ⟨inhabited, distinct, rfl⟩ :=
            Decode.enumeration_eq_ok_iff.mp (Decode.under_eq_ok_iff.mp isChecked)
          have enumFits : (Setting.enum checked).Fits (inside + 1) :=
            .intro rfl distinct (fun isEmpty => inhabited (Setting.enum.inj isEmpty))
              (List.forall_mem_nil _)
          exact gathers_setOnce fits enumFits changed isEnum
        · refine yields_setOnce fits (yields_schema levels) fun item itemFits => ?_
          exact .intro rfl List.nodup_nil nofun (List.forall_mem_singleton.mpr itemFits)
        · refine yields_setOnce fits (yields_schemas levels) ?_
          rintro fields ⟨distinct, each⟩
          exact .intro rfl distinct nofun each
        · refine yields_setOnce fits (yields_schemas levels) ?_
          rintro fields ⟨distinct, each⟩
          exact .intro rfl distinct nofun each
        · refine yields_setOnce fits (yields_of_forall fun _ => trivial)
            fun allowed (_ : True) => ?_
          exact .intro rfl List.nodup_nil nofun (List.forall_mem_nil _)
        · refine yields_setOnce fits (yields_schema levels) fun member memberFits => ?_
          exact .intro rfl List.nodup_nil nofun (List.forall_mem_singleton.mpr memberFits)
        · exact yields_setOnce fits (yields_discriminator levels) fun _ ruleFits => ruleFits
      · rintro gathered _ fits ⟨⟩
        exact fits

/-- Named schemas that are read obey the bounds: they are assigned one by one. -/
theorem yields_schemas (levels : Nat) : Yields (Schema.FieldsFit levels) (schemas levels) := by
  match levels with
  | 0 => exact yields_objectOr (yields_failAhead _) _
  | levels + 1 =>
      refine yields_objectOr (yields_object (Schema.FieldsFit (levels + 1)) ?_ ?_ ?_) _
      · exact .intro List.nodup_nil (List.forall_mem_nil _)
      · rintro gathered name ⟨distinct, each⟩
        refine (yields_schema levels).bind fun inner innerFits => yields_pure ?_
        rintro _ ⟨⟩
        refine .intro (Members.nodup_names_put distinct) fun other isInner => ?_
        obtain ⟨⟨_, other⟩, isField, rfl⟩ := List.mem_map.mp isInner
        rcases Members.mem_put isField with same | isField
        · cases same
          exact innerFits
        · exact each other (List.mem_map_of_mem (f := Prod.snd) isField)
      · rintro gathered _ fits ⟨⟩
        exact fits

/-- Every discriminator that is read obeys the bounds. -/
theorem yields_discriminator (levels : Nat) :
    Yields (fun rule => (Setting.discriminator rule).Fits levels) (discriminator levels) := by
  match levels with
  | 0 => exact yields_objectOr (yields_failAhead _) _
  | levels + 1 =>
      refine yields_objectOr (yields_object (fun gathered => ∀ fields,
        gathered.mapping = some fields → Schema.FieldsFit levels fields) ?_ ?_ ?_) _
      · rintro _ ⟨⟩
      · intro gathered name fits
        split
        · refine yields_bind fun tag => ?_
          split
          · exact yields_pure (by rintro _ ⟨⟩)
          · exact yields_pure (by rintro _ ⟨⟩; exact fits)
        · split
          · refine (yields_schemas levels).bind fun mapping mappingFits => ?_
            split
            · exact yields_pure (by rintro _ ⟨⟩)
            · exact yields_pure (by rintro _ ⟨⟩ _ ⟨⟩; exact mappingFits)
          · exact yields_bind fun _ => yields_pure (by rintro _ ⟨⟩; exact fits)
      · intro gathered rule fits isRule
        obtain ⟨distinct, each⟩ := fits _ (Decode.discriminatorOf_eq_ok isRule)
        exact .intro rfl distinct nofun each

end

end Reader

/-- The schema at the beginning of a text obeys the bounds of reading. -/
theorem Schema.fits_of_readLeading {text : String} {schema : Schema}
    (isRead : Schema.readLeading text = .ok schema) : schema.Fits Reader.nestingLimit := by
  obtain ⟨⟨read, behind⟩, isResult, rfl⟩ := Attempt.map_eq_ok_iff.mp isRead
  exact Reader.yields_schema Reader.nestingLimit (.start text) read behind isResult

/-- The schema at the beginning of a text has a proper document. -/
theorem Schema.proper_of_readLeading {text : String} {schema : Schema}
    (isRead : Schema.readLeading text = .ok schema) : schema.toJson.proper = true :=
  (fits_of_readLeading isRead).legible_and_proper.2

/-! ## Printed schemas -/

/-- A document that repeats no name means the schema that it describes. -/
theorem meansSchema_of_proper {document : Json} {schema : Schema}
    (isProper : document.proper = true) (isRead : Schema.ofJson document = .ok schema) :
    MeansSchema document schema := by
  refine ⟨⟨Role.readable_iff_shaped.mp ⟨schema, isRead⟩, not_repeats_of_proper isProper⟩, ?_⟩
  rwa [Json.merged_of_proper isProper]

/-- A schema at the beginning of some text is read from its printed form as well, whatever
follows. -/
theorem Schema.readLeading_pretty {text : String} {schema : Schema}
    (isRead : readLeading text = .ok schema) (more : String) :
    readLeading (schema.toJson.pretty ++ more) = .ok schema := by
  have fits := fits_of_readLeading isRead
  obtain ⟨legible, isProper⟩ := fits.legible_and_proper
  have isDocument : ofJson schema.toJson = .ok schema :=
    (ofJson_toJson_iff fits.distinctValues).mpr ⟨fits.inhabitedEnums, rfl⟩
  obtain ⟨document, behind, isTranscript, -, reached⟩ :=
    Json.exists_transcript_of_read (Json.read_pretty legible isProper)
  rw [Json.transcript_pretty legible] at isTranscript
  cases isTranscript
  have isPrinted := (readLeading_iff_meansSchema reached).mpr
    (meansSchema_of_proper isProper isDocument)
  exact readLeading_append reached isPrinted more

end FormSchema
