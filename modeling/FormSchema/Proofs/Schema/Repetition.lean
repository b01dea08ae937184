import FormSchema.Proofs.Decoding.Agreement
import FormSchema.Proofs.Schema.Grammar
import FormSchema.Schema.Text

/-!
# Repeated names in the document of a schema

The transcript of a text may repeat names.  Where names are keywords, `Repeats` says that one of
those that count is repeated.  A `Tidy` transcript has the shape of what it stands for, in every
member and not just in the last one of each name, and repeats no keyword.

What is gathered from the members of an object, one after the other and each keyword once, is what
is read from the members after merging, as long as the object is tidy.
-/

namespace FormSchema

/-- A keyword is repeated in an object whose members are keywords, or inside a member that
counts. -/
inductive Repeats : Role → Json → Prop where
  | here {role inner : Role} {name : String} {members : List (String × Json)}
      (keyed : role.keyed = true) (counts : role.inside name = some inner)
      (repeated : 2 ≤ (Members.names members).count name) :
      Repeats role (.object members)
  | inside {role inner : Role} {name : String} {value : Json} {members : List (String × Json)}
      (counts : role.inside name = some inner) (isMember : (name, value) ∈ members)
      (repeats : Repeats inner value) :
      Repeats role (.object members)

/-- A value has the shape of what it stands for and repeats no keyword. -/
def Tidy (role : Role) (value : Json) : Prop :=
  Shaped role value ∧ ¬ Repeats role value

theorem not_repeats_object_iff {role : Role} {members : List (String × Json)} :
    ¬ Repeats role (.object members) ↔
      (role.keyed = true → ∀ name inner, role.inside name = some inner →
        (Members.names members).count name ≤ 1) ∧
      ∀ name inner value, role.inside name = some inner → (name, value) ∈ members →
        ¬ Repeats inner value := by
  constructor
  · intro tidy
    refine ⟨fun keyed name inner counts => ?_, fun name inner value counts isMember repeats => ?_⟩
    · exact Nat.le_of_not_lt fun repeated => tidy (.here keyed counts repeated)
    · exact tidy (.inside counts isMember repeats)
  · rintro ⟨once, inside⟩ repeats
    cases repeats with
    | here keyed counts repeated => exact absurd (once keyed _ _ counts) (Nat.not_le_of_lt repeated)
    | inside counts isMember repeats => exact inside _ _ _ counts isMember repeats

/-- Where no name is repeated, no keyword is. -/
theorem not_repeats_of_proper {role : Role} {value : Json} (isProper : value.proper = true) :
    ¬ Repeats role value := by
  intro repeats
  induction repeats with
  | here keyed counts repeated =>
      have once := List.nodup_iff_count_le_one.mp (Json.proper_object_iff.mp isProper).1
      exact absurd (once _) (Nat.not_le_of_lt repeated)
  | inside counts isMember _ inductionHypothesis =>
      exact inductionHypothesis ((Json.proper_object_iff.mp isProper).2 _ _ isMember)

/-- No keyword is repeated where no member counts. -/
theorem not_repeats_of_inside {role : Role} {value : Json}
    (noneCounts : ∀ name, role.inside name = none) : ¬ Repeats role value := by
  intro repeats
  cases repeats with
  | here keyed counts repeated =>
      rw [noneCounts] at counts
      cases counts
  | inside counts isMember repeats =>
      rw [noneCounts] at counts
      cases counts

section Objects

variable {members : List (String × Json)}

theorem tidy_schema_iff :
    Tidy .schema (.object members) ↔
      (∀ keyword value, (Keyword.name keyword, value) ∈ members → Tidy keyword.role value) ∧
      ∀ keyword : Keyword, (Members.names members).count keyword.name ≤ 1 := by
  have counts := Role.inside_schema_name
  rw [Tidy, not_repeats_object_iff]
  constructor
  · rintro ⟨isShaped, once, inside⟩
    have shaped := shaped_schema_iff.mp isShaped
    exact ⟨fun keyword value isMember => ⟨shaped keyword value isMember,
      inside _ _ value (counts keyword) isMember⟩, fun keyword => once rfl _ _ (counts keyword)⟩
  · rintro ⟨tidy, once⟩
    refine ⟨.schema fun keyword value isMember => (tidy keyword value isMember).1, ?_, ?_⟩
    · intro _ name inner isInside
      obtain ⟨keyword, rfl, -⟩ := Role.inside_schema_eq_some_iff.mp isInside
      exact once keyword
    · intro name inner value isInside isMember
      obtain ⟨keyword, rfl, rfl⟩ := Role.inside_schema_eq_some_iff.mp isInside
      exact (tidy keyword value isMember).2

theorem tidy_schemas_iff :
    Tidy .schemas (.object members) ↔
      ∀ name value, (name, value) ∈ members → Tidy .schema value := by
  rw [Tidy, not_repeats_object_iff]
  constructor
  · rintro ⟨isShaped, -, inside⟩ name value isMember
    have shaped := shaped_schemas_iff.mp isShaped
    exact ⟨shaped name value isMember, inside name .schema value rfl isMember⟩
  · intro tidy
    refine ⟨.schemas fun name value isMember => (tidy name value isMember).1, nofun, ?_⟩
    rintro name _ value ⟨⟩ isMember
    exact (tidy name value isMember).2

theorem tidy_discriminator_iff :
    Tidy .discriminator (.object members) ↔
      (∀ value, ("tag", value) ∈ members → Shaped .string value) ∧
      (∀ value, ("mapping", value) ∈ members → Tidy .schemas value) ∧
      (Members.names members).count "tag" = 1 ∧ (Members.names members).count "mapping" = 1 := by
  rw [Tidy, not_repeats_object_iff]
  constructor
  · rintro ⟨isShaped, once, inside⟩
    obtain ⟨tagShaped, mappingShaped, tagged, mapped⟩ := shaped_discriminator_iff.mp isShaped
    refine ⟨tagShaped, fun value isMember => ⟨mappingShaped value isMember,
      inside "mapping" .schemas value rfl isMember⟩, ?_, ?_⟩
    · exact Nat.le_antisymm (once rfl "tag" .string rfl) (List.count_pos_iff.mpr tagged)
    · exact Nat.le_antisymm (once rfl "mapping" .schemas rfl) (List.count_pos_iff.mpr mapped)
  · rintro ⟨tagShaped, mappingTidy, tagOnce, mappingOnce⟩
    refine ⟨.discriminator tagShaped (fun value isMember => (mappingTidy value isMember).1)
      (List.count_pos_iff.mp (Nat.lt_of_lt_of_eq Nat.zero_lt_one tagOnce.symm))
      (List.count_pos_iff.mp (Nat.lt_of_lt_of_eq Nat.zero_lt_one mappingOnce.symm)), ?_, ?_⟩
    · intro _ name inner counts
      rcases Role.inside_discriminator_eq_some_iff.mp counts with ⟨rfl, -⟩ | ⟨rfl, -⟩
      · exact Nat.le_of_eq tagOnce
      · exact Nat.le_of_eq mappingOnce
    · intro name inner value counts isMember
      rcases Role.inside_discriminator_eq_some_iff.mp counts with ⟨rfl, rfl⟩ | ⟨rfl, rfl⟩
      · exact not_repeats_of_inside fun _ => rfl
      · exact (mappingTidy value isMember).2

end Objects

/-! ## Merging the members -/

namespace Members

variable {α : Type} {name : String} (value : α) {members : List (String × α)}

/-- Assigning a value to a name that does not count leaves the members that count. -/
theorem filter_put {counts : String → Bool} (isIgnored : counts name = false) :
    (put name value members).filter (fun member => counts member.1) =
      members.filter fun member => counts member.1 := by
  induction members with
  | nil => exact List.filter_cons_of_neg (by rw [isIgnored]; exact Bool.false_ne_true)
  | cons member rest inductionHypothesis =>
      obtain ⟨other, old⟩ := member
      rw [put]
      split
      · rename_i same
        rw [same, List.filter_cons, List.filter_cons, isIgnored]
        rfl
      · rw [List.filter_cons, List.filter_cons, inductionHypothesis]

theorem count_names_put_of_ne {other : String} (different : other ≠ name) :
    (names (put name value members)).count other = (names members).count other := by
  rw [names_put]
  split
  · rfl
  · rw [List.count_append, List.count_singleton, beq_false_of_ne different.symm]
    rfl

end Members

namespace Json

/-- A member with its value merged. -/
def mergedMember (member : String × Json) : String × Json :=
  (member.1, member.2.merged)

/-- Members whose names are not repeated stay in place when members are merged. -/
theorem filter_mergedMembers {counts : String → Bool} {before members : List (String × Json)}
    (once : ∀ name, counts name = true →
      (Members.names before).count name + (Members.names members).count name ≤ 1) :
    (mergedMembers before members).filter (fun member => counts member.1) =
      (before ++ members.map mergedMember).filter fun member => counts member.1 := by
  induction members generalizing before with
  | nil => rw [mergedMembers, List.map_nil, List.append_nil]
  | cons member rest inductionHypothesis =>
      obtain ⟨name, value⟩ := member
      have inNames (other : String) : (Members.names ((name, value) :: rest)).count other =
          (Members.names rest).count other + if name = other then 1 else 0 := by
        rw [Members.names, List.map_cons, List.count_cons]
        simp only [beq_iff_eq]
        rfl
      rw [mergedMembers, List.map_cons]
      by_cases isCounted : counts name = true
      · have here := once name isCounted
        rw [inNames, if_pos rfl] at here
        have isNew : name ∉ Members.names before := List.count_eq_zero.mp (by omega)
        rw [Members.put_of_not_mem isNew, inductionHypothesis, List.append_assoc]
        · rfl
        · intro other isOther
          have here := once other isOther
          have names : Members.names (before ++ [(name, value.merged)]) =
              Members.names before ++ [name] := List.map_append
          rw [inNames] at here
          rw [names, List.count_append, List.count_singleton]
          simp only [beq_iff_eq]
          omega
      · have isIgnored := Bool.of_not_eq_true isCounted
        rw [inductionHypothesis, List.filter_append, List.filter_append,
          Members.filter_put _ isIgnored, List.filter_cons_of_neg]
        · exact isCounted
        · intro other isOther
          have different : other ≠ name := by
            rintro rfl
            exact isCounted isOther
          have before := once other isOther
          rw [inNames, if_neg different.symm] at before
          rwa [Members.count_names_put_of_ne _ different]

theorem merged_ofStrings (texts : List String) : (ofStrings texts).merged = ofStrings texts := by
  rw [ofStrings, merged, mergedItems_eq, List.map_map]
  rfl

end Json

/-- What stands for something with members that count is an object. -/
theorem Shaped.exists_members {role : Role} {value : Json} (shaped : Shaped role value)
    (counting : ∃ name inner, role.inside name = some inner) :
    ∃ members, value = .object members := by
  obtain ⟨name, inner, counts⟩ := counting
  cases shaped with
  | schema | schemas | discriminator => exact ⟨_, rfl⟩
  | typeName | typeObject | enum | string | boolean => cases counts

/-- Merging keeps the shape of a value. -/
theorem Shaped.merged {role : Role} {value : Json} (shaped : Shaped role value) :
    Shaped role value.merged := by
  induction shaped with
  | schema _ inductionHypothesis =>
      rw [Json.merged]
      refine .schema fun keyword value isMember => ?_
      obtain ⟨raw, isRaw, rfl⟩ := Json.exists_of_mem_merged isMember
      exact inductionHypothesis keyword raw isRaw
  | schemas _ inductionHypothesis =>
      rw [Json.merged]
      refine .schemas fun name value isMember => ?_
      obtain ⟨raw, isRaw, rfl⟩ := Json.exists_of_mem_merged isMember
      exact inductionHypothesis name raw isRaw
  | discriminator _ _ tagged mapped ofTag ofMapping =>
      rw [Json.merged]
      refine .discriminator (fun value isMember => ?_) (fun value isMember => ?_)
        (Json.mem_names_merged tagged) (Json.mem_names_merged mapped)
      · obtain ⟨raw, isRaw, rfl⟩ := Json.exists_of_mem_merged isMember
        exact ofTag raw isRaw
      · obtain ⟨raw, isRaw, rfl⟩ := Json.exists_of_mem_merged isMember
        exact ofMapping raw isRaw
  | typeName primitive => exact .typeName primitive
  | typeObject primitive => exact .typeObject primitive
  | enum inhabited distinct =>
      rw [Json.merged_ofStrings]
      exact .enum inhabited distinct
  | string text => exact .string text
  | boolean truth => exact .boolean truth

/-! ## What is gathered once -/

/-- A transcript that may be read as it comes: it is tidy, and gives the schema after merging. -/
def MeansSchema (document : Json) (schema : Schema) : Prop :=
  Tidy .schema document ∧ Schema.ofJson document.merged = .ok schema

def MeansSchemas (document : Json) (fields : List (String × Schema)) : Prop :=
  Tidy .schemas document ∧ Decode.schemas document.merged = .ok fields

def MeansDiscriminator (document : Json) (rule : Discriminator Schema) : Prop :=
  Tidy .discriminator document ∧ Decode.discriminator document.merged = .ok rule

def MeansSetting (keyword : Keyword) (document : Json) (setting : Setting) : Prop :=
  Tidy keyword.role document ∧ Decode.settingOf keyword document.merged = .ok setting

/-- A member of a schema object sets a keyword that has not been set, or does not count. -/
def acceptsKeyword (gathered : Schema) (name : String) (document : Json) (more : Schema) : Prop :=
  match Keyword.ofName? name with
  | none => more = gathered
  | some keyword => gathered.setting? keyword = none ∧
      ∃ setting, MeansSetting keyword document setting ∧ more = gathered.set setting

theorem acceptsKeyword_iff {gathered more : Schema} {keyword : Keyword} {document : Json} :
    acceptsKeyword gathered keyword.name document more ↔ gathered.setting? keyword = none ∧
      ∃ setting, MeansSetting keyword document setting ∧ more = gathered.set setting := by
  rw [acceptsKeyword, Keyword.ofName?_name]

section Gathered

variable {members : List (String × Json)}

theorem count_names_cons (name searched : String) (value : Json) (rest : List (String × Json)) :
    (Members.names ((name, value) :: rest)).count searched =
      (Members.names rest).count searched + if name = searched then 1 else 0 := by
  rw [Members.names, List.map_cons, List.count_cons]
  simp only [beq_iff_eq]
  rfl

/-- A keyword that comes first may be set if it has not been set and does not come again. -/
theorem once_cons_iff {schema : Schema} {keyword : Keyword} {setting : Setting}
    {names : List String} (sameKeyword : setting.keyword = keyword) :
    (schema.setting? keyword = none ∧ ∀ other : Keyword, names.count other.name ≤
        if (schema.set setting).setting? other = none then 1 else 0) ↔
      ∀ other : Keyword, names.count other.name + (if keyword = other then 1 else 0) ≤
        if schema.setting? other = none then 1 else 0 := by
  simp only [Schema.setting?_set, sameKeyword]
  constructor
  · rintro ⟨unset, once⟩ other
    have here := once other
    by_cases same : keyword = other
    · rw [if_pos same.symm, if_neg (by simp)] at here
      rw [if_pos same, ← same, if_pos unset, same]
      exact Nat.succ_le_succ here
    · rw [if_neg (Ne.symm same)] at here
      rwa [if_neg same]
  · intro once
    refine ⟨?_, fun other => ?_⟩
    · have here := once keyword
      rw [if_pos rfl] at here
      by_contra isSet
      rw [if_neg isSet] at here
      exact absurd here (Nat.not_succ_le_zero _)
    · have here := once other
      by_cases same : keyword = other
      · rw [if_pos same] at here
        rw [if_pos same.symm, if_neg (by simp)]
        split at here <;> omega
      · rw [if_neg same] at here
        rwa [if_neg (Ne.symm same)]

theorem gathered_keywords_iff {schema read : Schema} :
    Reader.Gathered acceptsKeyword schema members read ↔
      (∀ keyword value, (Keyword.name keyword, value) ∈ members → Tidy keyword.role value) ∧
      (∀ keyword : Keyword, (Members.names members).count keyword.name ≤
        if schema.setting? keyword = none then 1 else 0) ∧
      Decode.keywords schema (members.map Json.mergedMember) = .ok read := by
  induction members generalizing schema with
  | nil =>
      rw [Reader.Gathered, List.map_nil, Decode.keywords, Except.ok.injEq, eq_comm]
      refine (and_iff_right fun _ _ isMember => ?_).symm.trans
        (and_congr_right fun _ => (and_iff_right fun _ => Nat.zero_le _).symm)
      cases isMember
  | cons member rest inductionHypothesis =>
      obtain ⟨name, value⟩ := member
      rw [Reader.Gathered, List.map_cons, Json.mergedMember, Decode.keywords]
      simp only [Members.forall_mem_cons_iff, count_names_cons]
      cases isKeyword : Keyword.ofName? name with
      | none =>
          have different := Keyword.ofName?_eq_none_iff.mp isKeyword
          simp only [acceptsKeyword, isKeyword, exists_eq_left, inductionHypothesis,
            (different _).symm, different, false_imp_iff, true_and, if_false, Nat.add_zero]
      | some keyword =>
          obtain rfl := Keyword.name_of_ofName? isKeyword
          simp only [acceptsKeyword_iff, Keyword.name_inj, Attempt.bind_eq_ok_iff,
            Decode.under_eq_ok_iff, forall_and, forall_eq]
          constructor
          · rintro ⟨_, ⟨unset, setting, ⟨isTidy, isSetting⟩, rfl⟩, areGathered⟩
            obtain ⟨restTidy, once, isRead⟩ := inductionHypothesis.mp areGathered
            have once := (once_cons_iff (Decode.keyword_of_settingOf isSetting)).mp ⟨unset, once⟩
            exact ⟨⟨isTidy, restTidy⟩, once, setting, isSetting, isRead⟩
          · rintro ⟨⟨isTidy, restTidy⟩, once, setting, isSetting, isRead⟩
            obtain ⟨unset, once⟩ := (once_cons_iff (Decode.keyword_of_settingOf isSetting)).mpr once
            exact ⟨_, ⟨unset, setting, ⟨isTidy, isSetting⟩, rfl⟩,
              inductionHypothesis.mpr ⟨restTidy, once, isRead⟩⟩

/-- Members that are no keywords make no difference. -/
theorem Decode.keywords_filter (schema : Schema) :
    keywords schema (members.filter fun member => (Keyword.ofName? member.1).isSome) =
      keywords schema members := by
  induction members generalizing schema with
  | nil => rfl
  | cons member rest inductionHypothesis =>
      obtain ⟨name, value⟩ := member
      rw [List.filter_cons]
      cases isKeyword : Keyword.ofName? name with
      | none =>
          rw [if_neg (by simp), inductionHypothesis, keywords, isKeyword]
      | some keyword =>
          rw [Option.isSome_some, if_pos rfl, keywords, keywords, isKeyword]
          simp only [inductionHypothesis]

/-- What is gathered from the members of a schema object, each keyword once, is what is read
after merging them. -/
theorem gathered_schema_iff {read : Schema} :
    Reader.Gathered acceptsKeyword {} members read ↔ MeansSchema (.object members) read := by
  rw [gathered_keywords_iff, MeansSchema, tidy_schema_iff, and_assoc]
  simp only [Schema.setting?_empty, if_true]
  refine and_congr_right fun _ => and_congr_right fun once => ?_
  have countedOnce (name : String) (isKeyword : (Keyword.ofName? name).isSome = true) :
      (Members.names ([] : List (String × Json))).count name +
        (Members.names members).count name ≤ 1 := by
    obtain ⟨keyword, isKeyword⟩ := Option.isSome_iff_exists.mp isKeyword
    rw [← Keyword.name_of_ofName? isKeyword]
    exact Nat.le_trans (Nat.le_of_eq (Nat.zero_add _)) (once keyword)
  have sameRead : Decode.keywords {} (Json.mergedMembers [] members) =
      Decode.keywords {} (members.map Json.mergedMember) := by
    rw [← Decode.keywords_filter, Json.filter_mergedMembers countedOnce, List.nil_append,
      Decode.keywords_filter]
  rw [Json.merged, Schema.ofJson, sameRead]

/-! ## Named schemas -/

/-- A member of an object with named schemas assigns a schema to its name. -/
def acceptsField (gathered : List (String × Schema)) (name : String) (document : Json)
    (more : List (String × Schema)) : Prop :=
  ∃ inner, MeansSchema document inner ∧ more = Members.put name inner gathered

/-- Assigning a value, and what it is read as, keeps the members apart that are read one by
one. -/
theorem readsFields_put {before : List (String × Json)} {fields : List (String × Schema)}
    (reads : List.Forall₂ Decode.ReadsField before fields) {name : String} {value : Json}
    {inner : Schema} (isRead : Schema.ofJson value = .ok inner) :
    List.Forall₂ Decode.ReadsField (Members.put name value before)
      (Members.put name inner fields) := by
  induction reads with
  | nil => exact .cons ⟨rfl, isRead⟩ .nil
  | @cons member field _ _ first rest inductionHypothesis =>
      obtain ⟨other, old⟩ := member
      obtain ⟨_, oldRead⟩ := field
      obtain ⟨rfl, _⟩ := id first
      rw [Members.put, Members.put]
      split
      · exact .cons ⟨rfl, isRead⟩ rest
      · exact .cons first inductionHypothesis

theorem gathered_fields_iff {before : List (String × Json)} {start read : List (String × Schema)}
    (reads : List.Forall₂ Decode.ReadsField before start) :
    Reader.Gathered acceptsField start members read ↔
      (∀ name value, (name, value) ∈ members → Tidy .schema value) ∧
      List.Forall₂ Decode.ReadsField (Json.mergedMembers before members) read := by
  induction members generalizing before start with
  | nil =>
      rw [Reader.Gathered, Json.mergedMembers, ← Decode.fields_eq_ok_iff,
        Decode.fields_eq_ok_iff.mpr reads, Except.ok.injEq, eq_comm]
      exact (and_iff_right fun _ _ isMember => absurd isMember List.not_mem_nil).symm
  | cons member rest inductionHypothesis =>
      obtain ⟨name, value⟩ := member
      rw [Reader.Gathered, Json.mergedMembers]
      constructor
      · rintro ⟨_, ⟨inner, ⟨isTidy, isRead⟩, rfl⟩, areGathered⟩
        obtain ⟨restTidy, areRead⟩ :=
          (inductionHypothesis (readsFields_put reads isRead)).mp areGathered
        refine ⟨fun other content isMember => ?_, areRead⟩
        rcases List.mem_cons.mp isMember with same | isLater
        · cases same
          exact isTidy
        · exact restTidy other content isLater
      · rintro ⟨tidy, areRead⟩
        have isTidy := tidy name value List.mem_cons_self
        obtain ⟨inner, isRead⟩ : ∃ inner, Schema.ofJson value.merged = .ok inner :=
          Role.readable_iff_shaped.mpr isTidy.1.merged
        refine ⟨_, ⟨inner, ⟨isTidy, isRead⟩, rfl⟩, ?_⟩
        exact (inductionHypothesis (readsFields_put reads isRead)).mpr
          ⟨fun other content isLater => tidy other content (List.mem_cons_of_mem _ isLater),
            areRead⟩

theorem gathered_schemas_iff {read : List (String × Schema)} :
    Reader.Gathered acceptsField [] members read ↔ MeansSchemas (.object members) read := by
  rw [gathered_fields_iff .nil, MeansSchemas, tidy_schemas_iff, ← Decode.fields_eq_ok_iff]
  rw [Json.merged, Decode.schemas]

/-! ## Discriminators -/

/-- A member of a discriminator object gives its tag or its mapping, which have not been given,
or does not count. -/
def acceptsPart (gathered : Reader.DiscriminatorMembers) (name : String) (document : Json)
    (more : Reader.DiscriminatorMembers) : Prop :=
  if name = "tag" then
    gathered.tag = none ∧
      ∃ text, document = .string text ∧ more = { gathered with tag := some text }
  else if name = "mapping" then
    gathered.mapping = none ∧
      ∃ fields, MeansSchemas document fields ∧ more = { gathered with mapping := some fields }
  else
    more = gathered

/-- A part that comes first may be given if it has not been given and does not come again. -/
theorem succ_le_ite_none_iff {α : Type} {given : Option α} {count : Nat} :
    count + 1 ≤ (if given = none then 1 else 0) ↔ given = none ∧ count ≤ 0 := by
  cases given <;> simp

theorem gathered_parts_iff {gathered : Reader.DiscriminatorMembers} {rule : Discriminator Schema} :
    (∃ last, Reader.Gathered acceptsPart gathered members last ∧
        Decode.discriminatorOf last.tag last.mapping = .ok rule) ↔
      ((∀ value, ("tag", value) ∈ members → Shaped .string value) ∧
        (Members.names members).count "tag" ≤ if gathered.tag = none then 1 else 0) ∧
      ((∀ value, ("mapping", value) ∈ members → Tidy .schemas value) ∧
        (Members.names members).count "mapping" ≤ if gathered.mapping = none then 1 else 0) ∧
      Decode.discriminatorMembers gathered.tag gathered.mapping (members.map Json.mergedMember) =
        .ok rule := by
  induction members generalizing gathered with
  | nil =>
      rw [List.map_nil, Decode.discriminatorMembers]
      constructor
      · rintro ⟨_, rfl, isRule⟩
        exact ⟨⟨fun _ isMember => absurd isMember List.not_mem_nil, Nat.zero_le _⟩,
          ⟨fun _ isMember => absurd isMember List.not_mem_nil, Nat.zero_le _⟩, isRule⟩
      · rintro ⟨-, -, isRule⟩
        exact ⟨gathered, rfl, isRule⟩
  | cons member rest inductionHypothesis =>
      obtain ⟨name, value⟩ := member
      have notTag : ¬ "mapping" = "tag" := by decide
      have notMapping : ¬ "tag" = "mapping" := by decide
      rw [List.map_cons, Json.mergedMember, Decode.discriminatorMembers_cons]
      simp only [Reader.Gathered, acceptsPart, Members.forall_mem_cons_iff, count_names_cons]
      by_cases isTag : name = "tag"
      · subst isTag
        simp only [if_true, forall_const, notTag, notMapping, if_false, false_imp_iff, true_and,
          Nat.add_zero, succ_le_ite_none_iff, shaped_string_iff]
        constructor
        · rintro ⟨last, ⟨_, ⟨unset, text, rfl, rfl⟩, areGathered⟩, isRule⟩
          obtain ⟨⟨tags, once⟩, mapping, isRead⟩ :=
            inductionHypothesis.mp ⟨last, areGathered, isRule⟩
          refine ⟨⟨⟨⟨text, rfl⟩, ?_⟩, unset, once⟩, mapping, ?_⟩
          · exact fun content isLater => shaped_string_iff.mp (tags content isLater)
          · exact Attempt.bind_eq_ok_iff.mpr ⟨text, rfl, isRead⟩
        · rintro ⟨⟨⟨⟨text, rfl⟩, tags⟩, unset, once⟩, mapping, isRead⟩
          obtain ⟨_, isText, isRead⟩ := Attempt.bind_eq_ok_iff.mp isRead
          cases isText
          have tags (content : Json) (isLater : ("tag", content) ∈ rest) :=
            shaped_string_iff.mpr (tags content isLater)
          obtain ⟨last, areGathered, isRule⟩ :=
            (@inductionHypothesis { gathered with tag := some text }).mpr
              ⟨⟨tags, once⟩, mapping, isRead⟩
          exact ⟨last, ⟨_, ⟨unset, text, rfl, rfl⟩, areGathered⟩, isRule⟩
      · by_cases isMapping : name = "mapping"
        · subst isMapping
          simp only [if_true, forall_const, notTag, notMapping, if_false, false_imp_iff, true_and,
            Nat.add_zero, succ_le_ite_none_iff]
          constructor
          · rintro ⟨last, ⟨_, ⟨unset, fields, ⟨isTidy, areRead⟩, rfl⟩, areGathered⟩, isRule⟩
            obtain ⟨tag, ⟨mappings, once⟩, isRead⟩ :=
              inductionHypothesis.mp ⟨last, areGathered, isRule⟩
            refine ⟨tag, ⟨⟨isTidy, mappings⟩, unset, once⟩, ?_⟩
            exact Attempt.bind_eq_ok_iff.mpr ⟨fields, Decode.under_eq_ok_iff.mpr areRead, isRead⟩
          · rintro ⟨tag, ⟨⟨isTidy, mappings⟩, unset, once⟩, isRead⟩
            obtain ⟨fields, areRead, isRead⟩ := Attempt.bind_eq_ok_iff.mp isRead
            have areRead := Decode.under_eq_ok_iff.mp areRead
            obtain ⟨last, areGathered, isRule⟩ :=
              (@inductionHypothesis { gathered with mapping := some fields }).mpr
                ⟨tag, ⟨mappings, once⟩, isRead⟩
            exact ⟨last, ⟨_, ⟨unset, fields, ⟨isTidy, areRead⟩, rfl⟩, areGathered⟩, isRule⟩
        · simp only [if_neg isTag, if_neg isMapping, exists_eq_left, inductionHypothesis,
            Ne.symm isTag, Ne.symm isMapping, false_imp_iff, true_and, Nat.add_zero]

/-- Members other than the tag and the mapping make no difference. -/
theorem Decode.discriminatorMembers_filter (tag : Option String)
    (mapping : Option (List (String × Schema))) :
    discriminatorMembers tag mapping
        (members.filter fun member => (Role.discriminator.inside member.1).isSome) =
      discriminatorMembers tag mapping members := by
  induction members generalizing tag mapping with
  | nil => rfl
  | cons member rest inductionHypothesis =>
      obtain ⟨name, value⟩ := member
      rw [List.filter_cons, Role.inside]
      by_cases isTag : name = "tag"
      · rw [if_pos isTag, Option.isSome_some, if_pos rfl, discriminatorMembers_cons,
          discriminatorMembers_cons]
        simp only [inductionHypothesis]
      · rw [if_neg isTag]
        by_cases isMapping : name = "mapping"
        · rw [if_pos isMapping, Option.isSome_some, if_pos rfl, discriminatorMembers_cons,
            discriminatorMembers_cons]
          simp only [inductionHypothesis]
        · rw [if_neg isMapping, Option.isSome_none, if_neg Bool.false_ne_true, inductionHypothesis,
            discriminatorMembers_cons, if_neg isTag, if_neg isMapping]

/-- What is gathered from the members of a discriminator object, each part once, is what is read
after merging them. -/
theorem gathered_discriminator_iff {rule : Discriminator Schema} :
    (∃ last, Reader.Gathered acceptsPart {} members last ∧
        Decode.discriminatorOf last.tag last.mapping = .ok rule) ↔
      MeansDiscriminator (.object members) rule := by
  have sameRead (tagOnce : (Members.names members).count "tag" ≤ 1)
      (mappingOnce : (Members.names members).count "mapping" ≤ 1) :
      Decode.discriminatorMembers none none (Json.mergedMembers [] members) =
        Decode.discriminatorMembers none none (members.map Json.mergedMember) := by
    rw [← Decode.discriminatorMembers_filter,
      @Json.filter_mergedMembers (fun name => (Role.discriminator.inside name).isSome),
      List.nil_append, Decode.discriminatorMembers_filter]
    intro name counts
    refine Nat.le_trans (Nat.le_of_eq (Nat.zero_add _)) ?_
    obtain ⟨inner, counts⟩ := Option.isSome_iff_exists.mp counts
    rcases Role.inside_discriminator_eq_some_iff.mp counts with ⟨rfl, -⟩ | ⟨rfl, -⟩
    · exact tagOnce
    · exact mappingOnce
  have present {name : String} {value : Json}
      (isMember : (name, value) ∈ members.map Json.mergedMember) :
      0 < (Members.names members).count name := by
    obtain ⟨member, isOriginal, same⟩ := List.mem_map.mp isMember
    cases same
    exact List.count_pos_iff.mpr (List.mem_map_of_mem isOriginal)
  rw [gathered_parts_iff, MeansDiscriminator, tidy_discriminator_iff, Json.merged,
    Decode.discriminator]
  constructor
  · rintro ⟨⟨tags, tagOnce⟩, ⟨mappings, mappingOnce⟩, isRead⟩
    obtain ⟨⟨-, ⟨⟩⟩ | hasTag, ⟨-, ⟨⟩⟩ | ⟨mapping, hasMapping, -⟩⟩ :=
      Decode.parts_of_discriminatorMembers isRead
    exact ⟨⟨tags, mappings, Nat.le_antisymm tagOnce (present hasTag),
      Nat.le_antisymm mappingOnce (present hasMapping)⟩,
      (sameRead tagOnce mappingOnce).trans isRead⟩
  · rintro ⟨⟨tags, mappings, tagOnce, mappingOnce⟩, isRead⟩
    have tagOnce := Nat.le_of_eq tagOnce
    have mappingOnce := Nat.le_of_eq mappingOnce
    exact ⟨⟨tags, tagOnce⟩, ⟨mappings, mappingOnce⟩,
      (sameRead tagOnce mappingOnce).symm.trans isRead⟩

end Gathered

end FormSchema
