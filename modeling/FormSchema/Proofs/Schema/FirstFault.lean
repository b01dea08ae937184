import FormSchema.Proofs.Schema.Grammar

/-!
# The first fault of a schema document

A value that does not describe a schema is refused with one fault and a path.  `Asks` says where
a path leads in the document and what is asked of the part there, and `Breaks` which fault such a
part has by itself.

`FirstFault` is the order of reading: a fault in a member counts only if all members before it that
count have their shape, and so on at each level further in, and a rule about an object as a whole
is looked at only when all of its members that count have their shape.  Reading fails exactly with
the first fault.
-/

namespace FormSchema

/-! ## What can be wrong -/

/-- What the reader asks for in place of a value. -/
def Role.expected : Role → Expected
  | schema => .schemaObject
  | schemas => .map
  | discriminator => .discriminatorObject
  | type => .stringOrMap
  | enum => .sequence
  | string => .string
  | boolean => .boolean

/-- Is a value of the kind that is asked for? -/
def Expected.admits : Expected → Json → Bool
  | schemaObject, .object _ => true
  | map, .object _ => true
  | discriminatorObject, .object _ => true
  | stringOrMap, .string _ => true
  | stringOrMap, .object _ => true
  | string, .string _ => true
  | sequence, .array _ => true
  | set, .array _ => true
  | boolean, .bool _ => true
  | unit, .null => true
  | finding, .object _ => true
  | finding, .array _ => true
  | suiteCase, .object _ => true
  | suiteCase, .array _ => true
  | _, _ => false

/-- A value by itself has a fault, where something is asked for. -/
inductive Breaks : Expected → Json → Fault → Prop where
  | kind {expected : Expected} {value : Json} (unfit : expected.admits value = false) :
      Breaks expected value (.wrongKind (.ofJson value) expected)
  | typeName {name : String} (unknown : ∀ primitive : Primitive, name ≠ primitive.name) :
      Breaks .stringOrMap (.string name) (.unknownPrimitive name)
  | typeObject {name : String} (unknown : ∀ primitive : Primitive, name ≠ primitive.name)
      (payload : Json) :
      Breaks .stringOrMap (.object [(name, payload)]) (.unknownPrimitive name)
  | memberCount {members : List (String × Json)} (several : members.length ≠ 1) :
      Breaks .stringOrMap (.object members) .notSingleMember
  | emptyEnum : Breaks .sequence (.array []) .emptyEnum
  /-- The values before the repetition are all different. -/
  | repeatedValue {before : List String} (distinct : before.Nodup) {text : String}
      (isEarlier : text ∈ before) (after : List String) :
      Breaks .sequence (.ofStrings (before ++ text :: after)) (.duplicateEnumValue text)
  | noTag {members : List (String × Json)} (untagged : "tag" ∉ Members.names members) :
      Breaks .discriminatorObject (.object members) (.missingField "tag")
  | noMapping {members : List (String × Json)} (tagged : "tag" ∈ Members.names members)
      (unmapped : "mapping" ∉ Members.names members) :
      Breaks .discriminatorObject (.object members) (.missingField "mapping")

/-- Do all members that count have the shape of what they stand for? -/
def Role.MembersShaped (role : Role) (members : List (String × Json)) : Prop :=
  ∀ name content, (name, content) ∈ members →
    ∀ inner, role.inside name = some inner → Shaped inner content

/-- The first fault of a value in some role, with the path to it. -/
inductive FirstFault : Role → Json → List PathStep → Fault → Prop where
  /-- A missing member is a fault only when all others are read. -/
  | here {role : Role} {value : Json} {fault : Fault} (breaks : Breaks role.expected value fault)
      (others : ∀ members field, value = .object members → fault = .missingField field →
        role.MembersShaped members) :
      FirstFault role value [] fault
  | member {role inner : Role} {before : List (String × Json)} (earlier : role.MembersShaped before)
      {name : String} {content : Json} {path : List PathStep} {fault : Fault}
      (counts : role.inside name = some inner) (inside : FirstFault inner content path fault)
      (after : List (String × Json)) :
      FirstFault role (.object (before ++ (name, content) :: after)) (.key name :: path) fault
  | item (texts : List String) {item : Json} (unfit : Expected.string.admits item = false)
      (after : List Json) :
      FirstFault .enum (.array (texts.map .string ++ item :: after)) [.position texts.length]
        (.wrongKind (.ofJson item) .string)
  | payload (primitive : Primitive) {payload : Json}
      (unfit : Expected.unit.admits payload = false) :
      FirstFault .type (.object [(primitive.name, payload)]) [.key primitive.name]
        (.wrongKind (.ofJson payload) .unit)

/-! ## Where faults are -/

/-- Reading a value as what it stands for fails with an error. -/
def Role.Fails (value : Json) (error : DecodeError) : Role → Prop
  | schema => Schema.ofJson value = .error error
  | schemas => Decode.schemas value = .error error
  | discriminator => Decode.discriminator value = .error error
  | type => Decode.primitive value = .error error
  | enum => Decode.strings .sequence value >>= Decode.enumeration = .error error
  | string => Decode.string value = .error error
  | boolean => Decode.boolean value = .error error

/-- Reading fails at a member, and the members before it are read. -/
inductive Role.MemberFails (role : Role) : List (String × Json) → DecodeError → Prop where
  | intro {before : List (String × Json)} (earlier : role.MembersShaped before)
      {name : String} {content : Json} {inner : Role} {error : DecodeError}
      (counts : role.inside name = some inner) (fails : inner.Fails content error)
      (after : List (String × Json)) :
      MemberFails role (before ++ (name, content) :: after) (error.under (.key name))

section Members

variable {role : Role} {name : String} {content : Json} {rest : List (String × Json)}
  {error : DecodeError}

theorem membersShaped_nil : role.MembersShaped [] :=
  fun _ _ isMember => absurd isMember List.not_mem_nil

theorem membersShaped_cons_iff :
    role.MembersShaped ((name, content) :: rest) ↔
      (∀ inner, role.inside name = some inner → Shaped inner content) ∧
        role.MembersShaped rest := by
  simp only [Role.MembersShaped, List.mem_cons, Prod.mk.injEq]
  constructor
  · intro shaped
    exact ⟨shaped name content (.inl ⟨rfl, rfl⟩), fun _ _ isLater => shaped _ _ (.inr isLater)⟩
  · rintro ⟨first, later⟩ _ _ (⟨rfl, rfl⟩ | isLater)
    · exact first
    · exact later _ _ isLater

theorem memberFails_nil : ¬ role.MemberFails [] error := by
  intro fails
  generalize isNil : ([] : List (String × Json)) = members at fails
  cases fails
  simp at isNil

/-- Reading fails at the first member, or behind it. -/
theorem memberFails_cons_iff :
    role.MemberFails ((name, content) :: rest) error ↔
      (∃ inner inside, role.inside name = some inner ∧ inner.Fails content inside ∧
        error = inside.under (.key name)) ∨
      ((∀ inner, role.inside name = some inner → Shaped inner content) ∧
        role.MemberFails rest error) := by
  constructor
  · intro fails
    generalize split : (name, content) :: rest = members at fails
    rcases fails with ⟨earlier, counts, fails, after⟩
    rename_i before _ _ _ _
    cases before with
    | nil =>
        cases split
        exact .inl ⟨_, _, counts, fails, rfl⟩
    | cons first before =>
        cases split
        rcases membersShaped_cons_iff.mp earlier with ⟨firstShaped, laterShaped⟩
        exact .inr ⟨firstShaped, .intro laterShaped counts fails after⟩
  · rintro (⟨inner, inside, counts, fails, rfl⟩ | ⟨firstShaped, ⟨earlier, counts, fails, after⟩⟩)
    · exact .intro membersShaped_nil counts fails rest
    · exact .intro (membersShaped_cons_iff.mpr ⟨firstShaped, earlier⟩) counts fails after

/-- Members that do not count make no difference. -/
theorem memberFails_cons_of_none (ignored : role.inside name = none) :
    role.MemberFails ((name, content) :: rest) error ↔ role.MemberFails rest error := by
  rw [memberFails_cons_iff]
  simp [ignored]

theorem membersShaped_cons_of_none (ignored : role.inside name = none) :
    role.MembersShaped ((name, content) :: rest) ↔ role.MembersShaped rest := by
  rw [membersShaped_cons_iff]
  simp [ignored]

theorem membersShaped_cons_of_some {inner : Role} (counts : role.inside name = some inner) :
    role.MembersShaped ((name, content) :: rest) ↔
      inner.Readable content ∧ role.MembersShaped rest := by
  rw [membersShaped_cons_iff, Role.readable_iff_shaped]
  simp [counts]

theorem memberFails_cons_of_some {inner : Role} (counts : role.inside name = some inner) :
    role.MemberFails ((name, content) :: rest) error ↔
      (∃ inside, inner.Fails content inside ∧ error = inside.under (.key name)) ∨
      (inner.Readable content ∧ role.MemberFails rest error) := by
  rw [memberFails_cons_iff, Role.readable_iff_shaped]
  simp [counts]

end Members

namespace Decode

section Steps

variable {α β : Type} {error : DecodeError}

theorem under_eq_error_iff {step : PathStep} {outcome : Except DecodeError α} :
    under step outcome = .error error ↔
      ∃ inside, outcome = .error inside ∧ error = inside.under step := by
  cases outcome <;> simp [under, Except.mapError, eq_comm]

theorem wrongKind_eq_error_iff {value : Json} {expected : Expected} :
    (wrongKind value expected : Except DecodeError α) = .error error ↔
      error = .here (.wrongKind (.ofJson value) expected) := by
  rw [wrongKind, Except.error.injEq, eq_comm]

/-- One step after another, the first of them further in. -/
theorem under_bind_eq_error_iff {step : PathStep} {first : Except DecodeError α}
    {next : α → Except DecodeError β} :
    under step first >>= next = .error error ↔
      (∃ inside, first = .error inside ∧ error = inside.under step) ∨
        ∃ between, first = .ok between ∧ next between = .error error := by
  simp only [Attempt.bind_eq_error_iff, under_eq_error_iff, under_eq_ok_iff]

end Steps

variable {members : List (String × Json)} {error : DecodeError}

theorem settingOf_eq_error_iff {keyword : Keyword} {value : Json} :
    settingOf keyword value = .error error ↔ keyword.role.Fails value error := by
  rw [settingOf_eq]
  cases keyword with
  | enum =>
      rw [← bind_assoc, Attempt.bind_eq_error_iff]
      simp [Keyword.role, Role.Fails, pure, Except.pure]
  | _ => exact Attempt.map_eq_error_iff

/-- Reading the keywords of a schema object fails exactly at a member. -/
theorem keywords_eq_error_iff {schema : Schema} :
    keywords schema members = .error error ↔ Role.schema.MemberFails members error := by
  induction members generalizing schema with
  | nil => exact iff_of_false nofun memberFails_nil
  | cons member rest inductionHypothesis =>
      rcases member with ⟨name, content⟩
      rw [keywords]
      cases isKeyword : Keyword.ofName? name with
      | none =>
          have ignored : Role.schema.inside name = none := Option.map_eq_none_iff.mpr isKeyword
          rw [memberFails_cons_of_none ignored]
          exact inductionHypothesis
      | some keyword =>
          have counts : Role.schema.inside name = some keyword.role :=
            Option.map_eq_some_iff.mpr ⟨keyword, isKeyword, rfl⟩
          rw [memberFails_cons_of_some counts, under_bind_eq_error_iff]
          simp only [inductionHypothesis, settingOf_eq_error_iff, ← settingOf_isOk_iff,
            exists_and_right]

/-- Reading named schemas fails exactly at a member. -/
theorem fields_eq_error_iff :
    fields members = .error error ↔ Role.schemas.MemberFails members error := by
  induction members with
  | nil => exact iff_of_false nofun memberFails_nil
  | cons member rest inductionHypothesis =>
      rcases member with ⟨name, content⟩
      have kept (schema : Schema) : (do
          let others ← fields rest
          return (name, schema) :: others) = .error error ↔ fields rest = .error error :=
        Attempt.map_eq_error_iff
      rw [fields_cons, memberFails_cons_of_some (rfl : Role.schemas.inside name = some .schema),
        under_bind_eq_error_iff]
      simp only [kept, inductionHypothesis, exists_and_right]
      rfl

section Discriminator

/-- At the end of a discriminator object the tag is missing, or else the mapping. -/
def Lacking (tagged mapped : Prop) (error : DecodeError) : Prop :=
  (¬ tagged ∧ error = .here (.missingField "tag")) ∨
    (tagged ∧ ¬ mapped ∧ error = .here (.missingField "mapping"))

variable {tag : Option String} {mapping : Option (List (String × Schema))}

theorem discriminatorOf_eq_error_iff :
    discriminatorOf tag mapping = .error error ↔
      Lacking (tag.isSome = true) (mapping.isSome = true) error := by
  cases tag <;> cases mapping <;> simp [discriminatorOf, Lacking, eq_comm]

/-- Reading the members of a discriminator object fails exactly at a member, or at the end, if a
member is missing that has not been read before either. -/
theorem discriminatorMembers_eq_error_iff :
    discriminatorMembers tag mapping members = .error error ↔
      Role.discriminator.MemberFails members error ∨
      (Role.discriminator.MembersShaped members ∧
        Lacking (tag.isSome = true ∨ "tag" ∈ Members.names members)
          (mapping.isSome = true ∨ "mapping" ∈ Members.names members) error) := by
  induction members generalizing tag mapping with
  | nil =>
      rw [discriminatorMembers, discriminatorOf_eq_error_iff]
      simp [Members.names, memberFails_nil, membersShaped_nil]
  | cons member rest inductionHypothesis =>
      rcases member with ⟨name, content⟩
      rw [discriminatorMembers_cons]
      by_cases isTag : name = "tag"
      · subst isTag
        have counts : Role.discriminator.inside "tag" = some .string := rfl
        rw [if_pos rfl, memberFails_cons_of_some counts, membersShaped_cons_of_some counts,
          under_bind_eq_error_iff]
        simp only [inductionHypothesis, Members.mem_names_cons, Option.isSome_some, true_or,
          or_true, String.reduceEq, false_or, exists_and_right]
        simp only [and_or_left, and_assoc, or_assoc]
        rfl
      · by_cases isMapping : name = "mapping"
        · subst isMapping
          have counts : Role.discriminator.inside "mapping" = some .schemas := rfl
          rw [if_neg isTag, if_pos rfl, memberFails_cons_of_some counts,
            membersShaped_cons_of_some counts, under_bind_eq_error_iff]
          simp only [inductionHypothesis, Members.mem_names_cons, Option.isSome_some, true_or,
            or_true, String.reduceEq, false_or, exists_and_right]
          simp only [and_or_left, and_assoc, or_assoc]
          rfl
        · have ignored := Role.inside_discriminator_eq_none_iff.mpr ⟨isTag, isMapping⟩
          rw [if_neg isTag, if_neg isMapping, memberFails_cons_of_none ignored,
            membersShaped_cons_of_none ignored, inductionHypothesis]
          simp [Members.mem_names_cons, Ne.symm isTag, Ne.symm isMapping]

end Discriminator

/-! ## Simple values -/

theorem string_eq_error_iff {value : Json} :
    string value = .error error ↔ Expected.string.admits value = false ∧
      error = .here (.wrongKind (.ofJson value) .string) := by
  cases value with
  | string text => exact iff_of_false nofun nofun
  | _ => exact wrongKind_eq_error_iff.trans (and_iff_right rfl).symm

/-- Reading a list of strings fails at the first item that is no string. -/
theorem items_string_eq_error_iff {position : Nat} {values : List Json} :
    items string position values = .error error ↔
      ∃ (texts : List String) (item : Json) (after : List Json),
        values = texts.map .string ++ item :: after ∧ Expected.string.admits item = false ∧
          error = ⟨[.position (position + texts.length)],
            .wrongKind (.ofJson item) .string, none⟩ := by
  induction values generalizing position with
  | nil => exact iff_of_false nofun (by simp)
  | cons value rest inductionHypothesis =>
      have kept (text : String) : (do
          let others ← items string (position + 1) rest
          return text :: others) = .error error ↔
            items string (position + 1) rest = .error error :=
        Attempt.map_eq_error_iff
      rw [items, under_bind_eq_error_iff]
      simp only [kept, string_eq_error_iff, string_eq_ok_iff, inductionHypothesis]
      constructor
      · rintro (⟨_, ⟨unfit, rfl⟩, rfl⟩ | ⟨text, rfl, texts, item, after, rfl, unfit, rfl⟩)
        · exact ⟨[], value, rest, rfl, unfit, rfl⟩
        · refine ⟨text :: texts, item, after, rfl, unfit, ?_⟩
          rw [List.length_cons, Nat.add_right_comm, Nat.add_assoc]
      · rintro ⟨texts, item, after, split, unfit, rfl⟩
        cases texts with
        | nil =>
            cases split
            exact .inl ⟨_, ⟨unfit, rfl⟩, rfl⟩
        | cons text texts =>
            cases split
            refine .inr ⟨text, rfl, texts, item, after, rfl, unfit, ?_⟩
            rw [List.length_cons, Nat.add_right_comm, Nat.add_assoc]

/-- The first repeated value is one that has been seen, behind new and different ones only. -/
theorem firstRepeated?_eq_some_iff {seen texts : List String} {text : String} :
    firstRepeated? seen texts = some text ↔
      ∃ before after, texts = before ++ text :: after ∧ before.Nodup ∧
        (∀ other ∈ before, other ∉ seen) ∧ (text ∈ seen ∨ text ∈ before) := by
  induction texts generalizing seen with
  | nil => simp [firstRepeated?]
  | cons value rest inductionHypothesis =>
      rw [firstRepeated?]
      constructor
      · intro repeats
        split at repeats
        · rename_i isSeen
          cases repeats
          exact ⟨[], rest, rfl, .nil, List.forall_mem_nil _, .inl isSeen⟩
        · rename_i isNew
          rcases inductionHypothesis.mp repeats with ⟨before, after, rfl, distinct, fresh, isOld⟩
          simp only [List.mem_cons, not_or] at fresh isOld
          refine ⟨value :: before, after, rfl, ?_, ?_, ?_⟩
          · exact List.nodup_cons.mpr ⟨fun isLater => (fresh value isLater).1 rfl, distinct⟩
          · exact List.forall_mem_cons.mpr ⟨isNew, fun other isLater => (fresh other isLater).2⟩
          · rw [List.mem_cons]
            tauto
      · rintro ⟨before, after, split, distinct, fresh, isOld⟩
        cases before with
        | nil =>
            cases split
            rw [if_pos (isOld.resolve_right List.not_mem_nil)]
        | cons first before =>
            cases split
            rcases List.nodup_cons.mp distinct with ⟨notLater, distinct⟩
            rcases List.forall_mem_cons.mp fresh with ⟨isNew, fresh⟩
            rw [if_neg isNew]
            refine inductionHypothesis.mpr ⟨before, after, rfl, distinct, ?_, ?_⟩
            · intro other isLater isOther
              rcases List.mem_cons.mp isOther with rfl | isSeen
              · exact notLater isLater
              · exact fresh other isLater isSeen
            · rw [List.mem_cons] at isOld ⊢
              tauto

/-- An enumeration fails without values, or at the first value that repeats one before it. -/
theorem enumeration_eq_error_iff {texts : List String} :
    enumeration texts = .error error ↔
      (texts = [] ∧ error = .here .emptyEnum) ∨
      ∃ before text after, texts = before ++ text :: after ∧ before.Nodup ∧ text ∈ before ∧
        error = .here (.duplicateEnumValue text) := by
  cases texts with
  | nil => simp [enumeration, eq_comm]
  | cons first rest =>
      rw [enumeration, List.isEmpty_cons, if_neg Bool.false_ne_true]
      simp only [reduceCtorEq, false_and, false_or]
      cases repeats : firstRepeated? [] (first :: rest) with
      | none =>
          apply iff_of_false
          · intro same
            cases same
          · rintro ⟨before, text, after, split, distinct, isEarlier, -⟩
            have found := firstRepeated?_eq_some_iff.mpr
              ⟨before, after, split, distinct, fun _ _ => List.not_mem_nil, .inr isEarlier⟩
            rw [repeats] at found
            cases found
      | some text =>
          simp only [Except.error.injEq]
          constructor
          · rintro rfl
            rcases firstRepeated?_eq_some_iff.mp repeats with
              ⟨before, after, split, distinct, -, isOld⟩
            exact ⟨before, text, after, split, distinct, isOld.resolve_left List.not_mem_nil, rfl⟩
          · rintro ⟨before, other, after, split, distinct, isEarlier, rfl⟩
            have found := firstRepeated?_eq_some_iff.mpr
              ⟨before, after, split, distinct, fun _ _ => List.not_mem_nil, .inr isEarlier⟩
            rw [repeats] at found
            cases found
            rfl

theorem primitiveNamed_eq_error_iff {name : String} :
    primitiveNamed name = .error error ↔
      (∀ primitive : Primitive, name ≠ primitive.name) ∧
        error = .here (.unknownPrimitive name) := by
  have unknown : (∀ primitive : Primitive, name ≠ primitive.name) ↔
      ∀ primitive, primitiveNamed name ≠ .ok primitive :=
    forall_congr' fun _ => not_congr primitiveNamed_eq_ok_iff.symm
  rw [unknown, primitiveNamed]
  cases Primitive.ofName? name with
  | none => simp [eq_comm]
  | some primitive => simp

theorem primitive_single_eq_error_iff {name : String} {payload : Json} :
    primitive (.object [(name, payload)]) = .error error ↔
      primitiveNamed name = .error error ∨
      ((∃ primitive : Primitive, name = primitive.name) ∧ Expected.unit.admits payload = false ∧
        error = ⟨[.key name], .wrongKind (.ofJson payload) .unit, none⟩) := by
  rw [primitive, Attempt.bind_eq_error_iff]
  simp only [primitiveNamed_eq_ok_iff]
  cases payload with
  | null => simp [Expected.admits, pure, Except.pure]
  | _ => simp [Expected.admits, under_eq_error_iff, wrongKind_eq_error_iff, DecodeError.under,
      DecodeError.here]

theorem primitive_object_eq_error_iff :
    primitive (.object members) = .error error ↔
      (members.length ≠ 1 ∧ error = .here .notSingleMember) ∨
      ∃ name payload, members = [(name, payload)] ∧
        (primitiveNamed name = .error error ∨
        ((∃ primitive : Primitive, name = primitive.name) ∧
          Expected.unit.admits payload = false ∧
          error = ⟨[.key name], .wrongKind (.ofJson payload) .unit, none⟩)) := by
  match members with
  | [] =>
      rw [primitive, Except.error.injEq, eq_comm] <;> simp
  | [(name, payload)] => simp [primitive_single_eq_error_iff]
  | _ :: _ :: _ =>
      rw [primitive, Except.error.injEq, eq_comm] <;> simp

end Decode

/-! ## Reading fails with the first fault -/

/-- A value of the wrong kind is refused as such, in every role. -/
theorem Role.fails_iff_of_unfit {role : Role} {value : Json} {error : DecodeError}
    (unfit : role.expected.admits value = false) :
    role.Fails value error ↔ error = .here (.wrongKind (.ofJson value) role.expected) := by
  cases role <;> cases value <;>
    first
      | exact Decode.wrongKind_eq_error_iff
      | cases unfit

/-- A value that breaks a rule by itself is refused as such, once its members are read. -/
theorem Breaks.fails {role : Role} {value : Json} {fault : Fault}
    (breaks : Breaks role.expected value fault)
    (others : ∀ members field, value = .object members → fault = .missingField field →
      role.MembersShaped members) :
    role.Fails value (.here fault) := by
  generalize isExpected : role.expected = expected at breaks
  cases breaks with
  | kind unfit =>
      subst isExpected
      exact (Role.fails_iff_of_unfit unfit).mpr rfl
  | typeName unknown =>
      cases role with
      | type => exact Decode.primitiveNamed_eq_error_iff.mpr ⟨unknown, rfl⟩
      | _ => cases isExpected
  | typeObject unknown payload =>
      cases role with
      | type =>
          have nameFails := Decode.primitiveNamed_eq_error_iff.mpr ⟨unknown, rfl⟩
          exact Decode.primitive_object_eq_error_iff.mpr (.inr ⟨_, _, rfl, .inl nameFails⟩)
      | _ => cases isExpected
  | memberCount several =>
      cases role with
      | type => exact Decode.primitive_object_eq_error_iff.mpr (.inl ⟨several, rfl⟩)
      | _ => cases isExpected
  | emptyEnum =>
      cases role with
      | enum => rfl
      | _ => cases isExpected
  | repeatedValue distinct isEarlier after =>
      cases role with
      | enum =>
          have repeats := Decode.enumeration_eq_error_iff.mpr
            (.inr ⟨_, _, after, rfl, distinct, isEarlier, rfl⟩)
          exact Attempt.bind_eq_error_iff.mpr (.inr ⟨_, Decode.strings_eq_ok_iff.mpr rfl, repeats⟩)
      | _ => cases isExpected
  | noTag untagged =>
      cases role with
      | discriminator =>
          apply Decode.discriminatorMembers_eq_error_iff.mpr
          exact .inr ⟨others _ _ rfl rfl, .inl ⟨by simpa using untagged, rfl⟩⟩
      | _ => cases isExpected
  | noMapping tagged unmapped =>
      cases role with
      | discriminator =>
          apply Decode.discriminatorMembers_eq_error_iff.mpr
          exact .inr ⟨others _ _ rfl rfl, .inr ⟨.inr tagged, by simpa using unmapped, rfl⟩⟩
      | _ => cases isExpected

/-- The first fault of a value is what reading fails with. -/
theorem FirstFault.fails {role : Role} {value : Json} {path : List PathStep} {fault : Fault}
    (first : FirstFault role value path fault) : role.Fails value ⟨path, fault, none⟩ := by
  induction first with
  | here breaks others => exact breaks.fails others
  | @member role inner before earlier name content path fault counts inside after
      inductionHypothesis =>
      have memberFails : role.MemberFails (before ++ (name, content) :: after)
          ⟨.key name :: path, fault, none⟩ :=
        .intro earlier counts inductionHypothesis after
      cases role with
      | schema => exact Decode.keywords_eq_error_iff.mpr memberFails
      | schemas => exact Decode.fields_eq_error_iff.mpr memberFails
      | discriminator => exact Decode.discriminatorMembers_eq_error_iff.mpr (.inl memberFails)
      | _ => cases counts
  | item texts unfit after =>
      apply Attempt.bind_eq_error_iff.mpr
      apply Or.inl
      exact Decode.items_string_eq_error_iff.mpr ⟨texts, _, after, rfl, unfit, by simp⟩
  | payload primitive unfit =>
      exact Decode.primitive_object_eq_error_iff.mpr
        (.inr ⟨_, _, rfl, .inr ⟨⟨primitive, rfl⟩, unfit, rfl⟩⟩)

/-- A missing tag is not reported before a mapping that is no map. -/
example :
    Schema.ofJson (.object [("discriminator", .object [("mapping", .null)])]) =
      .error ⟨[.key "discriminator", .key "mapping"], .wrongKind .null .map, none⟩ :=
  rfl

end FormSchema
