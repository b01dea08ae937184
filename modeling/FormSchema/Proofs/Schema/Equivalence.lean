import FormSchema.Schema.Equivalence
import FormSchema.Proofs.Json.Matching
import FormSchema.Proofs.Schema.Reading
import FormSchema.Proofs.Schema.WellFormed

/-!
# Equality of schemas up to order

Equality of schemas is decided by going through both of them together.  `Alike` is one level of
it: the same keywords are set, to the same entries in some order, with related schemas inside.
A relation that goes on like this inside is a bisimulation, and equality is one, as long as no
name and no enumerated value occurs twice.

A bisimulation also leads from every schema in the tree of one side to a related one at the
same place on the other side.  None of the rules of verification looks at the order of entries,
so related schemas are well-formed together.
-/

namespace FormSchema

section Options

variable {α β : Type} {relation : α → β → Prop} {value : Option α} {other : Option β}

theorem isSome_eq_of_rel (related : Option.Rel relation value other) :
    value.isSome = other.isSome := by
  cases related <;> rfl

theorem eq_none_of_rel (related : Option.Rel relation value other) (unset : value = none) :
    other = none := by
  subst unset
  cases related
  rfl

/-- What is set on one side is set to something related on the other. -/
theorem exists_of_rel (related : Option.Rel relation value other) {first : α}
    (isSet : value = some first) : ∃ second, other = some second ∧ relation first second := by
  subst isSet
  cases related with
  | some isRelated => exact ⟨_, rfl, isRelated⟩

/-- What is set on both sides, or on neither, is so from the other side. -/
theorem rel_flip {reverse : β → α → Prop} (related : Option.Rel relation value other)
    (turn : ∀ first second, relation first second → reverse second first) :
    Option.Rel reverse other value := by
  cases related with
  | none => exact .none
  | some isRelated => exact .some (turn _ _ isRelated)

end Options

/-- Named schemas that are set on both sides correspond, or are set on neither. -/
abbrev NamedAlike {α β : Type} (relation : α → β → Prop) :
    Option (List (String × α)) → Option (List (String × β)) → Prop :=
  Option.Rel (Members.Correspond relation)

theorem NamedAlike.names_perm {α β : Type} {relation : α → β → Prop}
    {named : Option (List (String × α))} {other : Option (List (String × β))}
    (alike : NamedAlike relation named other) :
    (Members.names (named.getD [])).Perm (Members.names (other.getD [])) := by
  cases alike with
  | none => exact .nil
  | some correspond => exact Members.names_perm correspond.matched

/-- Rules of tagged unions have the same tag and corresponding branches. -/
structure Discriminator.Alike {α β : Type} (relation : α → β → Prop) (rule : Discriminator α)
    (other : Discriminator β) : Prop where
  tag : rule.tag = other.tag
  mapping : Members.Correspond relation rule.mapping other.mapping

/-- Shapes have the same form and related entries. -/
inductive Shape.Alike {α β : Type} (relation : α → β → Prop) : Shape α → Shape β → Prop where
  | ref (name : String) : Alike relation (.ref name) (.ref name)
  | type (primitive : Primitive) : Alike relation (.type primitive) (.type primitive)
  | enum {texts others : List String} (sameTexts : texts.Perm others) :
      Alike relation (.enum texts) (.enum others)
  | elements {item : α} {other : β} (related : relation item other) :
      Alike relation (.elements item) (.elements other)
  | properties {required optional : Option (List (String × α))}
      {otherRequired otherOptional : Option (List (String × β))} (additional : Bool)
      (requiredAlike : NamedAlike relation required otherRequired)
      (optionalAlike : NamedAlike relation optional otherOptional) :
      Alike relation (.properties required optional additional)
        (.properties otherRequired otherOptional additional)
  | values {member : α} {other : β} (related : relation member other) :
      Alike relation (.values member) (.values other)
  | discriminator {rule : Discriminator α} {other : Discriminator β}
      (rulesAlike : rule.Alike relation other) :
      Alike relation (.discriminator rule) (.discriminator other)
  | empty : Alike relation .empty .empty

theorem Shape.Alike.form_eq {α β : Type} {relation : α → β → Prop} {shape : Shape α}
    {other : Shape β} (alike : Shape.Alike relation shape other) : shape.form = other.form := by
  cases alike <;> rfl

namespace Schema

variable {relation : Schema → Schema → Prop} {first second : Schema}

/-- The same keywords are set, to related entries in some order. -/
structure Alike (relation : Schema → Schema → Prop) (first second : Schema) : Prop where
  definitions : NamedAlike relation first.definitions second.definitions
  ref : first.ref = second.ref
  type : first.type = second.type
  enum : Option.Rel List.Perm first.enum second.enum
  elements : Option.Rel relation first.elements second.elements
  properties : NamedAlike relation first.properties second.properties
  optionalProperties : NamedAlike relation first.optionalProperties second.optionalProperties
  additionalProperties : first.additionalProperties = second.additionalProperties
  values : Option.Rel relation first.values second.values
  discriminator :
    Option.Rel (Discriminator.Alike relation) first.discriminator second.discriminator

/-- What is related is alike, with related schemas inside. -/
def Bisimulation (relation : Schema → Schema → Prop) : Prop :=
  ∀ first second, relation first second → Alike relation first second

namespace Alike

theorem flip (alike : Alike relation first second) :
    Alike (fun second first => relation first second) second first where
  definitions := rel_flip alike.definitions fun _ _ => Members.Correspond.flip
  ref := alike.ref.symm
  type := alike.type.symm
  enum := rel_flip alike.enum fun _ _ => List.Perm.symm
  elements := rel_flip alike.elements fun _ _ => id
  properties := rel_flip alike.properties fun _ _ => Members.Correspond.flip
  optionalProperties := rel_flip alike.optionalProperties fun _ _ => Members.Correspond.flip
  additionalProperties := alike.additionalProperties.symm
  values := rel_flip alike.values fun _ _ => id
  discriminator := rel_flip alike.discriminator fun _ _ rulesAlike =>
    ⟨rulesAlike.tag.symm, rulesAlike.mapping.flip⟩

/-- Schemas that are alike have alike shapes. -/
theorem shape (alike : Alike relation first second) :
    Shape.Alike relation first.shape second.shape := by
  obtain ⟨definitions, ref, type, enum, elements, properties, optionalProperties,
    additionalProperties, values, discriminator⟩ := first
  obtain ⟨otherDefinitions, otherRef, otherType, otherEnum, otherElements, otherProperties,
    otherOptional, otherAdditional, otherValues, otherDiscriminator⟩ := second
  obtain ⟨-, rfl, rfl, enumAlike, elementsAlike, propertiesAlike, optionalAlike, rfl, valuesAlike,
    rulesAlike⟩ := alike
  cases ref with
  | some name => exact .ref name
  | none =>
    cases type with
    | some primitive => exact .type primitive
    | none =>
      cases enumAlike with
      | some sameTexts => exact .enum sameTexts
      | none =>
        cases elementsAlike with
        | some related => exact .elements related
        | none =>
          cases propertiesAlike with
          | some correspond => exact .properties _ (.some correspond) optionalAlike
          | none =>
            cases optionalAlike with
            | some correspond => exact .properties _ .none (.some correspond)
            | none =>
              cases valuesAlike with
              | some related => exact .values related
              | none =>
                cases rulesAlike with
                | some rulesAlike => exact .discriminator rulesAlike
                | none => exact .empty

end Alike

/-! ## Equality is a bisimulation -/

/-- A schema that repeats neither names nor enumerated values corresponds to those that it is
equal to. -/
structure Corresponds (first second : Schema) : Prop where
  isProper : first.toJson.proper = true
  distinct : first.DistinctValues
  same : first.equivalent second = true

theorem fieldsWithin_eq (left right : List (String × Schema)) :
    fieldsWithin left right = Members.within equivalent left right := by
  induction left with
  | nil =>
      rw [fieldsWithin]
      rfl
  | cons field rest inductionHypothesis =>
      obtain ⟨name, schema⟩ := field
      rw [fieldsWithin, inductionHypothesis, Members.within, Members.within, List.all_cons]
      cases right.lookup name <;> rfl

/-- Named schemas correspond if they are equally many and the same, name by name. -/
theorem correspond_of_fieldsWithin {left right : List (String × Schema)}
    (isProper : (Json.object (fieldsToJson left)).proper = true)
    (distinct : ∀ name inner, (name, inner) ∈ left → inner.DistinctValues)
    (sameLength : left.length = right.length) (within : fieldsWithin left right = true) :
    Members.Correspond Corresponds left right := by
  obtain ⟨distinctNames, innerProper⟩ := proper_fields_iff.mp isProper
  rw [fieldsWithin_eq] at within
  exact (Members.correspond_of_within sameLength distinctNames within).imp
    fun name inner _ isField same =>
      ⟨innerProper name inner isField, distinct name inner isField, same⟩

theorem alike_of_sameNamed {named other : Option (List (String × Schema))}
    (isProper : ∀ fields, named = some fields →
      (Json.object (fieldsToJson fields)).proper = true)
    (distinct : ∀ fields name inner, named = some fields → (name, inner) ∈ fields →
      inner.DistinctValues)
    (same : sameNamed named other = true) : NamedAlike Corresponds named other := by
  cases named with
  | none =>
      cases other with
      | none => exact .none
      | some right => simp [sameNamed] at same
  | some left =>
      cases other with
      | none => simp [sameNamed] at same
      | some right =>
          rw [sameNamed, Bool.and_eq_true, decide_eq_true_iff] at same
          exact .some (correspond_of_fieldsWithin (isProper left rfl)
            (fun name inner => distinct left name inner rfl) same.1 same.2)

theorem rel_of_sameSingle {single other : Option Schema}
    (isProper : ∀ inner, single = some inner → inner.toJson.proper = true)
    (distinct : ∀ inner, single = some inner → inner.DistinctValues)
    (same : sameSingle single other = true) : Option.Rel Corresponds single other := by
  cases single with
  | none =>
      cases other with
      | none => exact .none
      | some right => simp [sameSingle] at same
  | some left =>
      cases other with
      | none => simp [sameSingle] at same
      | some right =>
          rw [sameSingle] at same
          exact .some ⟨isProper left rfl, distinct left rfl, same⟩

theorem alike_of_sameRule {discriminator other : Option (Discriminator Schema)}
    (isProper : ∀ rule, discriminator = some rule →
      (Json.object (fieldsToJson rule.mapping)).proper = true)
    (distinct : ∀ rule tagValue inner, discriminator = some rule →
      (tagValue, inner) ∈ rule.mapping → inner.DistinctValues)
    (same : sameRule discriminator other = true) :
    Option.Rel (Discriminator.Alike Corresponds) discriminator other := by
  cases discriminator with
  | none =>
      cases other with
      | none => exact .none
      | some right => simp [sameRule] at same
  | some left =>
      cases other with
      | none => simp [sameRule] at same
      | some right =>
          rw [sameRule, Bool.and_eq_true, Bool.and_eq_true, decide_eq_true_iff,
            decide_eq_true_iff] at same
          obtain ⟨⟨sameTag, sameLength⟩, within⟩ := same
          exact .some ⟨sameTag, correspond_of_fieldsWithin (isProper left rfl)
            (fun tagValue inner => distinct left tagValue inner rfl) sameLength within⟩

/-- Enumerations without repetitions that have the same values are the same up to order. -/
theorem perm_of_sameEnum {enum other : Option (List String)} (distinct : (enum.getD []).Nodup)
    (same : sameEnum enum other = true) : Option.Rel List.Perm enum other := by
  cases enum <;> cases other <;> try cases same
  · exact .none
  · rw [sameEnum, sameValues, Bool.and_eq_true, decide_eq_true_iff, List.all_eq_true] at same
    have isSubset (text : String) (isValue : text ∈ _) := List.contains_iff_mem.mp
      (same.2 text isValue)
    exact .some ((List.Nodup.subperm distinct isSubset).perm_of_length_le
      (Nat.le_of_eq same.1.symm))

/-- Schemas that correspond are alike, and what is inside corresponds. -/
theorem corresponds_bisimulation : Bisimulation Corresponds := by
  rintro first second ⟨isProper, distinct, same⟩
  obtain ⟨distinctHere, insideDistinct⟩ := distinctValues_iff.mp distinct
  rw [proper_toJson_iff] at isProper
  obtain ⟨definitions, ref, type, enum, elements, properties, optionalProperties,
    additionalProperties, values, discriminator⟩ := first
  simp only [equivalent, Bool.and_eq_true, decide_eq_true_iff] at same
  obtain ⟨⟨⟨⟨⟨⟨⟨⟨⟨sameDefinitions, sameRef⟩, sameType⟩, sameEnum⟩, sameElements⟩, sameRequired⟩,
    sameOptional⟩, sameAdditional⟩, sameMember⟩, sameRule⟩ := same
  constructor
  case ref => exact sameRef
  case type => exact sameType
  case additionalProperties => exact sameAdditional
  case enum => exact perm_of_sameEnum distinctHere sameEnum
  case definitions =>
      refine alike_of_sameNamed ?_ ?_ sameDefinitions
      · exact fun fields isSet => isProper .definitions _ (by rw [written, isSet, Option.map_some])
      · exact fun fields name inner isSet isField =>
          insideDistinct inner (holds_of_definition isSet isField)
  case elements =>
      refine rel_of_sameSingle ?_ ?_ sameElements
      · exact fun inner isSet => isProper .elements _ (by rw [written, isSet, Option.map_some])
      · exact fun inner isSet => insideDistinct inner (Child.elements isSet).holds
  case properties =>
      refine alike_of_sameNamed ?_ ?_ sameRequired
      · exact fun fields isSet => isProper .properties _ (by rw [written, isSet, Option.map_some])
      · exact fun fields name inner isSet isField =>
          insideDistinct inner (Child.required isSet isField).holds
  case optionalProperties =>
      refine alike_of_sameNamed ?_ ?_ sameOptional
      · exact fun fields isSet =>
          isProper .optionalProperties _ (by rw [written, isSet, Option.map_some])
      · exact fun fields name inner isSet isField =>
          insideDistinct inner (Child.optional isSet isField).holds
  case values =>
      refine rel_of_sameSingle ?_ ?_ sameMember
      · exact fun inner isSet => isProper .values _ (by rw [written, isSet, Option.map_some])
      · exact fun inner isSet => insideDistinct inner (Child.values isSet).holds
  case discriminator =>
      refine alike_of_sameRule ?_ ?_ sameRule
      · intro rule isSet
        have written := isProper .discriminator _ (by rw [written, isSet, Option.map_some])
        exact (Json.proper_object_iff.mp written).2 "mapping" _
          (List.mem_cons_of_mem _ List.mem_cons_self)
      · exact fun rule tagValue inner isSet isBranch =>
          insideDistinct inner (Child.branch isSet isBranch).holds

/-! ## Related trees are well-formed together -/

/-- A schema directly inside has a related one at the same place on the other side. -/
theorem Alike.exists_child (alike : Alike relation first second) {tokens : List String}
    {tag : Option String} {inner : Schema} (step : Child first tokens tag inner) :
    ∃ other, Child second tokens tag other ∧ relation inner other := by
  cases step with
  | elements isSet =>
      obtain ⟨other, isOther, related⟩ := exists_of_rel alike.elements isSet
      exact ⟨other, .elements isOther, related⟩
  | values isSet =>
      obtain ⟨other, isOther, related⟩ := exists_of_rel alike.values isSet
      exact ⟨other, .values isOther, related⟩
  | required isSet isField =>
      obtain ⟨fields, areOthers, correspond⟩ := exists_of_rel alike.properties isSet
      obtain ⟨other, isOther, related⟩ :=
        Members.exists_related_of_mem correspond.matched isField
      exact ⟨other, .required areOthers isOther, related⟩
  | optional isSet isField =>
      obtain ⟨fields, areOthers, correspond⟩ := exists_of_rel alike.optionalProperties isSet
      obtain ⟨other, isOther, related⟩ :=
        Members.exists_related_of_mem correspond.matched isField
      exact ⟨other, .optional areOthers isOther, related⟩
  | branch isSet isBranch =>
      obtain ⟨rule, isRule, rulesAlike⟩ := exists_of_rel alike.discriminator isSet
      obtain ⟨other, isOther, related⟩ :=
        Members.exists_related_of_mem rulesAlike.mapping.matched isBranch
      rw [rulesAlike.tag]
      exact ⟨other, .branch isRule isOther, related⟩

namespace Bisimulation

theorem flip (bisimulation : Bisimulation relation) :
    Bisimulation fun second first => relation first second :=
  fun second first related => (bisimulation first second related).flip

/-- Every schema in a tree has a related one at the same place on the other side. -/
theorem exists_contains (bisimulation : Bisimulation relation) (related : relation first second)
    {place : List String} {node : Schema} (contains : first.Contains place node) :
    ∃ other, second.Contains place other ∧ relation node other := by
  induction contains generalizing second with
  | self => exact ⟨second, .self, related⟩
  | child step _ inductionHypothesis =>
      obtain ⟨inner, stepAlong, innerRelated⟩ := (bisimulation _ _ related).exists_child step
      obtain ⟨other, below, otherRelated⟩ := inductionHypothesis innerRelated
      exact ⟨other, .child stepAlong below, otherRelated⟩
  | definition isSet isField _ inductionHypothesis =>
      obtain ⟨fields, areOthers, correspond⟩ :=
        exists_of_rel (bisimulation _ _ related).definitions isSet
      obtain ⟨inner, isInner, innerRelated⟩ :=
        Members.exists_related_of_mem correspond.matched isField
      obtain ⟨other, below, otherRelated⟩ := inductionHypothesis innerRelated
      exact ⟨other, .definition areOthers isInner below, otherRelated⟩

/-- The rules of verification do not look at the order of entries. -/
theorem lawful (bisimulation : Bisimulation relation) {root otherRoot : Schema}
    (rootsRelated : relation root otherRoot) (related : relation first second)
    {outermost : Bool} (isLawful : Lawful root outermost first) :
    Lawful otherRoot outermost second := by
  have alike := bisimulation first second related
  have rootsAlike := bisimulation root otherRoot rootsRelated
  constructor
  case placed =>
    refine isLawful.placed.imp_right fun empty => ?_
    have noNames := alike.definitions.names_perm
    rw [empty] at noNames
    exact List.map_eq_nil_iff.mp (List.nil_perm.mp noNames)
  case resolved =>
    intro name isSet
    rw [← rootsAlike.definitions.names_perm.mem_iff]
    exact isLawful.resolved name (alike.ref.trans isSet)
  case single =>
    have populates (form : Form) : second.populates form = first.populates form := by
      cases form <;> simp only [populates, alike.ref, alike.type, isSome_eq_of_rel alike.enum,
        isSome_eq_of_rel alike.elements, isSome_eq_of_rel alike.properties,
        isSome_eq_of_rel alike.optionalProperties, isSome_eq_of_rel alike.values,
        isSome_eq_of_rel alike.discriminator]
    intro form other isPopulated otherPopulated
    rw [populates] at isPopulated otherPopulated
    exact isLawful.single form other isPopulated otherPopulated
  case inhabited =>
    intro isEmpty
    obtain ⟨texts, isSet, sameTexts⟩ := exists_of_rel alike.flip.enum isEmpty
    rw [List.nil_perm.mp sameTexts] at isSet
    exact isLawful.inhabited isSet
  case disjoint =>
    intro name
    rw [← alike.properties.names_perm.mem_iff, ← alike.optionalProperties.names_perm.mem_iff]
    exact isLawful.disjoint name
  case branched =>
    intro rule tagValue branch isSet isBranch
    obtain ⟨other, isOther, rulesAlike⟩ := exists_of_rel alike.flip.discriminator isSet
    obtain ⟨otherBranch, isOtherBranch, branchRelated⟩ :=
      Members.exists_related_of_mem rulesAlike.mapping.matched isBranch
    have sameForm := (bisimulation _ _ branchRelated).shape.form_eq
    exact sameForm.symm.trans (isLawful.branched other tagValue _ isOther isOtherBranch)
  case untagged =>
    intro rule tagValue branch isSet isBranch
    obtain ⟨other, isOther, rulesAlike⟩ := exists_of_rel alike.flip.discriminator isSet
    obtain ⟨otherBranch, isOtherBranch, branchRelated⟩ :=
      Members.exists_related_of_mem rulesAlike.mapping.matched isBranch
    have branchAlike := bisimulation _ _ branchRelated
    rw [rulesAlike.tag, ← branchAlike.properties.names_perm.mem_iff,
      ← branchAlike.optionalProperties.names_perm.mem_iff]
    exact isLawful.untagged other tagValue _ isOther isOtherBranch

theorem wellFormed (bisimulation : Bisimulation relation) (related : relation first second)
    (isWellFormed : WellFormed first) : WellFormed second := by
  intro place node contains
  obtain ⟨other, otherContains, nodeRelated⟩ := bisimulation.flip.exists_contains related contains
  exact bisimulation.lawful related nodeRelated (isWellFormed place other otherContains)

/-- Verification accepts both of two related schemas, or neither. -/
theorem verify_iff (bisimulation : Bisimulation relation) (related : relation first second) :
    first.verify = .ok () ↔ second.verify = .ok () := by
  rw [verify_eq_ok_iff, verify_eq_ok_iff]
  exact ⟨bisimulation.wellFormed related, bisimulation.flip.wellFormed related⟩

end Bisimulation

end Schema

end FormSchema
