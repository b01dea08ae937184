import Mathlib.Tactic.ByContra
import FormSchema.Proofs.Schema.Violations

/-!
# Well-formed schemas

The rules of verification, without an order and without a walk.  A schema is lawful if it
obeys every rule by itself, and well-formed if all schemas in its tree are lawful, with
references resolved in the definitions of the outermost one.

`Breaks` says which violations a schema commits by itself.  The list of violations of a tree
has exactly the violations that its schemas commit, so verification decides well-formedness,
and where it fails it reports the first of them.
-/

namespace FormSchema.Schema

/-- A schema obeys every rule by itself. -/
structure Lawful (root : Schema) (outermost : Bool) (schema : Schema) : Prop where
  /-- Only the outermost schema has definitions. -/
  placed : outermost = true ∨ schema.definitions.getD [] = []
  /-- The reference names a definition of the outermost schema. -/
  resolved : ∀ name, schema.ref = some name → name ∈ Members.names (root.definitions.getD [])
  /-- At most one form has a keyword set. -/
  single : ∀ first second, schema.populates first = true → schema.populates second = true →
    first = second
  /-- An enumeration has a value. -/
  inhabited : schema.enum ≠ some []
  /-- No property is both required and optional. -/
  disjoint : ∀ name, name ∈ Members.names (schema.properties.getD []) →
    name ∉ Members.names (schema.optionalProperties.getD [])
  /-- The branches of a discriminator are of the properties form. -/
  branched : ∀ rule tagValue branch, schema.discriminator = some rule →
    (tagValue, branch) ∈ rule.mapping → branch.form = .properties
  /-- The branches of a discriminator leave the tag undeclared. -/
  untagged : ∀ rule tagValue branch, schema.discriminator = some rule →
    (tagValue, branch) ∈ rule.mapping →
      rule.tag ∉ Members.names (branch.properties.getD []) ∧
      rule.tag ∉ Members.names (branch.optionalProperties.getD [])

/-- Every schema in the tree is lawful. -/
def WellFormed (root : Schema) : Prop :=
  ∀ place node, root.Contains place node → Lawful root place.isEmpty node

/-- A violation that a schema commits by itself. -/
inductive Breaks (root : Schema) (outermost : Bool) (schema : Schema) : Violation → Prop where
  | nestedDefinitions (inside : outermost = false) (defines : schema.definitions.getD [] ≠ []) :
      Breaks root outermost schema .nestedDefinitions
  | unresolvedRef {name : String} (isSet : schema.ref = some name)
      (undefined : name ∉ Members.names (root.definitions.getD [])) :
      Breaks root outermost schema (.unresolvedRef name)
  /-- All forms that have a keyword set are reported, in order of precedence. -/
  | multipleForms {forms : List Form} (areSet : forms = Form.groups.filter schema.populates)
      (several : 1 < forms.length) :
      Breaks root outermost schema (.multipleForms forms)
  | emptyEnum (isEmpty : schema.enum = some []) : Breaks root outermost schema .emptyEnum
  /-- Of the required properties that are optional too, the first is reported. -/
  | ambiguousProperty {name : String} {before after : List String}
      (isRequired : Members.names (schema.properties.getD []) = before ++ name :: after)
      (isOptional : name ∈ Members.names (schema.optionalProperties.getD []))
      (isFirst : ∀ earlier ∈ before, earlier ∉ Members.names (schema.optionalProperties.getD [])) :
      Breaks root outermost schema (.ambiguousProperty name)
  | branchNotProperties {rule : Discriminator Schema} {tagValue : String} {branch : Schema}
      (isSet : schema.discriminator = some rule) (isBranch : (tagValue, branch) ∈ rule.mapping)
      (otherForm : branch.form ≠ .properties) :
      Breaks root outermost schema (.branchNotProperties tagValue)
  | branchDeclaresTag {rule : Discriminator Schema} {tagValue : String} {branch : Schema}
      (isSet : schema.discriminator = some rule) (isBranch : (tagValue, branch) ∈ rule.mapping)
      (declared : rule.tag ∈ Members.names (branch.properties.getD []) ∨
        rule.tag ∈ Members.names (branch.optionalProperties.getD [])) :
      Breaks root outermost schema (.branchDeclaresTag tagValue rule.tag)

/-! ## Lawful schemas commit no violation -/

theorem declares_iff {schema : Schema} {name : String} :
    schema.declares name = true ↔
      name ∈ Members.names (schema.properties.getD []) ∨
        name ∈ Members.names (schema.optionalProperties.getD []) := by
  have absent : ¬ name ∈ Members.names ([] : List (String × Schema)) := List.not_mem_nil
  rw [declares, Bool.or_eq_true]
  cases schema.properties <;> cases schema.optionalProperties <;>
    simp [Members.has_iff_mem_names, absent]

theorem nodup_groups : Form.groups.Nodup := by decide

theorem mem_groups_of_populates {schema : Schema} {form : Form}
    (isSet : schema.populates form = true) : form ∈ Form.groups := by
  cases form <;> first | decide | cases isSet

/-- Several forms have a keyword set exactly if two different ones have. -/
theorem single_iff {schema : Schema} :
    (∀ first second, schema.populates first = true → schema.populates second = true →
      first = second) ↔ ¬ 1 < (Form.groups.filter schema.populates).length := by
  constructor
  · intro single several
    obtain ⟨first, second, rest, areSet⟩ : ∃ first second rest,
        Form.groups.filter schema.populates = first :: second :: rest := by
      match found : Form.groups.filter schema.populates with
      | [] => simp [found] at several
      | [form] => simp [found] at several
      | first :: second :: rest => exact ⟨first, second, rest, rfl⟩
    have distinct := nodup_groups.filter schema.populates
    have isSet (form : Form) (isListed : form ∈ first :: second :: rest) :
        schema.populates form = true := by
      rw [← areSet] at isListed
      exact (List.mem_filter.mp isListed).2
    rw [areSet] at distinct
    have same := single first second (isSet first (by simp)) (isSet second (by simp))
    simp [same] at distinct
  · intro atMostOne first second firstSet secondSet
    have firstListed := List.mem_filter.mpr ⟨mem_groups_of_populates firstSet, firstSet⟩
    have secondListed := List.mem_filter.mpr ⟨mem_groups_of_populates secondSet, secondSet⟩
    match found : Form.groups.filter schema.populates with
    | [] =>
        rw [found] at firstListed
        cases firstListed
    | [form] =>
        rw [found] at firstListed secondListed
        rw [List.mem_singleton.mp firstListed, List.mem_singleton.mp secondListed]
    | _ :: _ :: _ => simp [found] at atMostOne

/-- The first of some names that is among others. -/
theorem find?_mem_eq_some_iff {names others : List String} {name : String} :
    (names.find? fun name => decide (name ∈ others)) = some name ↔
      ∃ before after, names = before ++ name :: after ∧ name ∈ others ∧
        ∀ earlier ∈ before, earlier ∉ others := by
  simp only [List.find?_eq_some_iff_append, decide_eq_true_eq, Bool.not_eq_eq_eq_not,
    Bool.not_true, decide_eq_false_iff_not]
  constructor
  · rintro ⟨isAmong, before, after, split, isFirst⟩
    exact ⟨before, after, split, isAmong, isFirst⟩
  · rintro ⟨before, after, split, isAmong, isFirst⟩
    exact ⟨isAmong, before, after, split, isFirst⟩

/-- A schema is lawful exactly if it commits no violation by itself. -/
theorem lawful_iff_not_breaks {root schema : Schema} {outermost : Bool} :
    Lawful root outermost schema ↔ ∀ violation, ¬ Breaks root outermost schema violation := by
  constructor
  · intro lawful violation breaks
    cases breaks with
    | nestedDefinitions inside defines =>
        rcases lawful.placed with isOutermost | empty
        · cases inside.symm.trans isOutermost
        · exact defines empty
    | unresolvedRef isSet undefined => exact undefined (lawful.resolved _ isSet)
    | multipleForms areSet several =>
        rw [areSet] at several
        exact single_iff.mp lawful.single several
    | emptyEnum isEmpty => exact lawful.inhabited isEmpty
    | ambiguousProperty isRequired isOptional =>
        refine lawful.disjoint _ ?_ isOptional
        rw [isRequired]
        exact List.mem_append_right _ List.mem_cons_self
    | branchNotProperties isSet isBranch otherForm =>
        exact otherForm (lawful.branched _ _ _ isSet isBranch)
    | branchDeclaresTag isSet isBranch declared =>
        obtain ⟨notRequired, notOptional⟩ := lawful.untagged _ _ _ isSet isBranch
        exact declared.elim notRequired notOptional
  · intro innocent
    constructor
    case placed =>
      cases outermost with
      | true => exact .inl rfl
      | false =>
          by_contra neither
          exact innocent _ (.nestedDefinitions rfl (not_or.mp neither).2)
    case resolved =>
      intro name isSet
      by_contra undefined
      exact innocent _ (.unresolvedRef isSet undefined)
    case single => exact single_iff.mpr fun several => innocent _ (.multipleForms rfl several)
    case inhabited => exact fun isEmpty => innocent _ (.emptyEnum isEmpty)
    case disjoint =>
      intro name isRequired isOptional
      have isCommon : ((Members.names (schema.properties.getD [])).find? fun name =>
          decide (name ∈ Members.names (schema.optionalProperties.getD []))).isSome = true :=
        List.find?_isSome.mpr ⟨name, isRequired, decide_eq_true isOptional⟩
      obtain ⟨first, found⟩ := Option.isSome_iff_exists.mp isCommon
      obtain ⟨before, after, split, firstOptional, isFirst⟩ := find?_mem_eq_some_iff.mp found
      exact innocent _ (.ambiguousProperty split firstOptional isFirst)
    case branched =>
      intro rule tagValue branch isSet isBranch
      by_contra otherForm
      exact innocent _ (.branchNotProperties isSet isBranch otherForm)
    case untagged =>
      intro rule tagValue branch isSet isBranch
      exact ⟨fun declared => innocent _ (.branchDeclaresTag isSet isBranch (.inl declared)),
        fun declared => innocent _ (.branchDeclaresTag isSet isBranch (.inr declared))⟩

/-! ## The list has the violations of all schemas -/

section Membership

variable {root : Schema} {violation : Violation}

theorem mem_placementViolations_iff {outermost : Bool}
    {definitions : Option (List (String × Schema))} :
    violation ∈ placementViolations outermost definitions ↔
      (outermost = false ∧ definitions.getD [] ≠ []) ∧ violation = .nestedDefinitions := by
  rw [placementViolations]
  split <;> simp [*]

theorem mem_refViolations_iff {ref : Option String} :
    violation ∈ refViolations root ref ↔
      ∃ name, ref = some name ∧ name ∉ Members.names (root.definitions.getD []) ∧
        violation = .unresolvedRef name := by
  cases ref with
  | none => simp [refViolations]
  | some name =>
      simp only [refViolations]
      split <;> simp [*]

theorem mem_formViolations_iff {schema : Schema} :
    violation ∈ formViolations schema ↔
      1 < (Form.groups.filter schema.populates).length ∧
        violation = .multipleForms (Form.groups.filter schema.populates) := by
  rw [formViolations]
  split <;> simp [*]

theorem mem_enumViolations_iff {enum : Option (List String)} :
    violation ∈ enumViolations enum ↔ enum = some [] ∧ violation = .emptyEnum := by
  rw [enumViolations]
  split <;> simp [*]

theorem mem_overlapViolations_iff {required optional : Option (List (String × Schema))} :
    violation ∈ overlapViolations required optional ↔
      ∃ name before after, Members.names (required.getD []) = before ++ name :: after ∧
        name ∈ Members.names (optional.getD []) ∧
        (∀ earlier ∈ before, earlier ∉ Members.names (optional.getD [])) ∧
        violation = .ambiguousProperty name := by
  rw [overlapViolations, Option.mem_toList, Option.map_eq_some_iff]
  constructor
  · rintro ⟨name, found, rfl⟩
    obtain ⟨before, after, isRequired, isOptional, isFirst⟩ := find?_mem_eq_some_iff.mp found
    exact ⟨name, before, after, isRequired, isOptional, isFirst, rfl⟩
  · rintro ⟨name, before, after, isRequired, isOptional, isFirst, rfl⟩
    exact ⟨name, find?_mem_eq_some_iff.mpr ⟨_, _, isRequired, isOptional, isFirst⟩, rfl⟩

theorem mem_branchViolations_iff {tag tagValue : String} {branch : Schema} :
    violation ∈ branchViolations tag (tagValue, branch) ↔
      (branch.form ≠ .properties ∧ violation = .branchNotProperties tagValue) ∨
      ((tag ∈ Members.names (branch.properties.getD []) ∨
          tag ∈ Members.names (branch.optionalProperties.getD [])) ∧
        violation = .branchDeclaresTag tagValue tag) := by
  rw [branchViolations, ← declares_iff]
  by_cases suits : branch.form = .properties <;>
    by_cases declared : branch.declares tag = true <;> simp [suits, declared]

theorem mem_ruleViolations_iff {discriminator : Option (Discriminator Schema)} :
    violation ∈ ruleViolations discriminator ↔
      ∃ rule tagValue branch, discriminator = some rule ∧ (tagValue, branch) ∈ rule.mapping ∧
        violation ∈ branchViolations rule.tag (tagValue, branch) := by
  cases discriminator with
  | none => simp [ruleViolations]
  | some rule => simp [ruleViolations, List.mem_flatMap]

/-- What a schema commits by itself is what the lists of the single rules have. -/
theorem breaks_iff_mem {schema : Schema} {outermost : Bool} :
    Breaks root outermost schema violation ↔
      violation ∈ placementViolations outermost schema.definitions ∨
      violation ∈ refViolations root schema.ref ∨ violation ∈ formViolations schema ∨
      violation ∈ enumViolations schema.enum ∨
      violation ∈ overlapViolations schema.properties schema.optionalProperties ∨
      violation ∈ ruleViolations schema.discriminator := by
  rw [mem_placementViolations_iff, mem_refViolations_iff, mem_formViolations_iff,
    mem_enumViolations_iff, mem_overlapViolations_iff, mem_ruleViolations_iff]
  constructor
  · intro breaks
    cases breaks with
    | nestedDefinitions inside defines => exact .inl ⟨⟨inside, defines⟩, rfl⟩
    | unresolvedRef isSet undefined => exact .inr (.inl ⟨_, isSet, undefined, rfl⟩)
    | multipleForms areSet several =>
        subst areSet
        exact .inr (.inr (.inl ⟨several, rfl⟩))
    | emptyEnum isEmpty => exact .inr (.inr (.inr (.inl ⟨isEmpty, rfl⟩)))
    | ambiguousProperty isRequired isOptional isFirst =>
        exact .inr (.inr (.inr (.inr (.inl ⟨_, _, _, isRequired, isOptional, isFirst, rfl⟩))))
    | branchNotProperties isSet isBranch otherForm =>
        exact .inr (.inr (.inr (.inr (.inr
          ⟨_, _, _, isSet, isBranch, mem_branchViolations_iff.mpr (.inl ⟨otherForm, rfl⟩)⟩))))
    | branchDeclaresTag isSet isBranch declared =>
        exact .inr (.inr (.inr (.inr (.inr
          ⟨_, _, _, isSet, isBranch, mem_branchViolations_iff.mpr (.inr ⟨declared, rfl⟩)⟩))))
  · rintro (⟨⟨inside, defines⟩, rfl⟩ | ⟨name, isSet, undefined, rfl⟩ | ⟨several, rfl⟩ |
      ⟨isEmpty, rfl⟩ | ⟨name, before, after, isRequired, isOptional, isFirst, rfl⟩ |
      ⟨rule, tagValue, branch, isSet, isBranch, isViolation⟩)
    · exact .nestedDefinitions inside defines
    · exact .unresolvedRef isSet undefined
    · exact .multipleForms rfl several
    · exact .emptyEnum isEmpty
    · exact .ambiguousProperty isRequired isOptional isFirst
    · rcases mem_branchViolations_iff.mp isViolation with ⟨otherForm, rfl⟩ | ⟨declared, rfl⟩
      · exact .branchNotProperties isSet isBranch otherForm
      · exact .branchDeclaresTag isSet isBranch declared

theorem mem_fieldViolations_iff {fields : List (String × Schema)} :
    violation ∈ fieldViolations root fields ↔
      ∃ name inner, (name, inner) ∈ fields ∧ violation ∈ violations root false inner := by
  induction fields with
  | nil => simp [fieldViolations]
  | cons field rest inductionHypothesis =>
      obtain ⟨other, first⟩ := field
      rw [fieldViolations, List.mem_append, inductionHypothesis]
      constructor
      · rintro (isFirst | ⟨name, inner, isField, isLater⟩)
        · exact ⟨other, first, List.mem_cons_self, isFirst⟩
        · exact ⟨name, inner, List.mem_cons_of_mem _ isField, isLater⟩
      · rintro ⟨name, inner, isField, isViolation⟩
        rcases List.mem_cons.mp isField with same | isField
        · cases same
          exact .inl isViolation
        · exact .inr ⟨name, inner, isField, isViolation⟩

theorem mem_namedViolations_iff {named : Option (List (String × Schema))} :
    violation ∈ namedViolations root named ↔
      ∃ fields name inner, named = some fields ∧ (name, inner) ∈ fields ∧
        violation ∈ violations root false inner := by
  cases named with
  | none => simp [namedViolations]
  | some fields => simp [namedViolations, mem_fieldViolations_iff]

theorem mem_singleViolations_iff {single : Option Schema} :
    violation ∈ singleViolations root single ↔
      ∃ inner, single = some inner ∧ violation ∈ violations root false inner := by
  cases single with
  | none => simp [singleViolations]
  | some inner => simp [singleViolations]

theorem mem_mappingViolations_iff {discriminator : Option (Discriminator Schema)} :
    violation ∈ mappingViolations root discriminator ↔
      ∃ rule tagValue inner, discriminator = some rule ∧ (tagValue, inner) ∈ rule.mapping ∧
        violation ∈ violations root false inner := by
  cases discriminator with
  | none => simp [mappingViolations]
  | some rule => simp [mappingViolations, mem_fieldViolations_iff]

/-- The violations of a tree are those of its outermost schema and of the trees directly
inside. -/
theorem mem_violations_iff {schema : Schema} {outermost : Bool} :
    violation ∈ violations root outermost schema ↔
      Breaks root outermost schema violation ∨
      (∃ tokens tag inner, Child schema tokens tag inner ∧
        violation ∈ violations root false inner) ∨
      ∃ fields name inner, schema.definitions = some fields ∧ (name, inner) ∈ fields ∧
        violation ∈ violations root false inner := by
  obtain ⟨definitions, ref, type, enum, elements, properties, optionalProperties,
    additionalProperties, values, discriminator⟩ := schema
  rw [violations, breaks_iff_mem, exists_child_iff]
  simp only [List.mem_append, mem_namedViolations_iff, mem_singleViolations_iff,
    mem_mappingViolations_iff]
  -- Both sides have the same twelve parts, in a different order.
  constructor
  · rintro (((((((((((here | here) | here) | here) | here) | here) | here) | here) | here) |
      here) | here) | here) <;> simp only [here, true_or, or_true]
  · rintro ((here | here | here | here | here | here) | (here | here | here | here | here) |
      here) <;> simp only [here, true_or, or_true]

/-- The list has exactly the violations that the schemas of the tree commit. -/
theorem mem_violations_iff_contains {schema : Schema} {outermost : Bool} :
    violation ∈ violations root outermost schema ↔
      ∃ place node, schema.Contains place node ∧
        Breaks root (outermost && place.isEmpty) node violation := by
  constructor
  · intro isViolation
    induction schema using treeInduction generalizing outermost with
    | step schema insideChild insideDefinition =>
        rcases mem_violations_iff.mp isViolation with
          breaks | ⟨tokens, tag, inner, step, isInside⟩ |
            ⟨fields, name, inner, isSet, isField, isInside⟩
        · exact ⟨[], schema, .self, by rwa [List.isEmpty_nil, Bool.and_true]⟩
        · obtain ⟨place, node, below, breaks⟩ := insideChild tokens tag inner step isInside
          refine ⟨tokens ++ place, node, .child step below, ?_⟩
          rwa [step.isEmpty_append, Bool.and_false]
        · obtain ⟨place, node, below, breaks⟩ :=
            insideDefinition fields name inner isSet isField isInside
          refine ⟨"definitions" :: name :: place, node, .definition isSet isField below, ?_⟩
          rwa [List.isEmpty_cons, Bool.and_false]
  · rintro ⟨place, node, contains, breaks⟩
    induction contains generalizing outermost with
    | self =>
        rw [List.isEmpty_nil, Bool.and_true] at breaks
        exact mem_violations_iff.mpr (.inl breaks)
    | child step below inductionHypothesis =>
        rw [step.isEmpty_append, Bool.and_false] at breaks
        exact mem_violations_iff.mpr (.inr (.inl ⟨_, _, _, step, inductionHypothesis breaks⟩))
    | definition isSet isField below inductionHypothesis =>
        rw [List.isEmpty_cons, Bool.and_false] at breaks
        exact mem_violations_iff.mpr
          (.inr (.inr ⟨_, _, _, isSet, isField, inductionHypothesis breaks⟩))

end Membership

/-! ## Verification -/

/-- A schema that passes the check is lawful by itself. -/
theorem lawful_of_check {root schema : Schema} {outermost : Bool}
    (passed : check root outermost schema = .ok ()) : Lawful root outermost schema := by
  rw [check_eq_firstOf, firstOf_eq_ok_iff] at passed
  refine lawful_iff_not_breaks.mpr fun violation breaks => ?_
  have isViolation := mem_violations_iff.mpr (.inl breaks)
  rw [passed] at isViolation
  cases isViolation

/-- Verification passes exactly if the schema is well-formed. -/
theorem verify_eq_ok_iff {root : Schema} : root.verify = .ok () ↔ root.WellFormed := by
  rw [verify, check_eq_firstOf, firstOf_eq_ok_iff, List.eq_nil_iff_forall_not_mem]
  constructor
  · intro none place node contains
    refine lawful_iff_not_breaks.mpr fun violation breaks => ?_
    exact none violation (mem_violations_iff_contains.mpr ⟨place, node, contains, breaks⟩)
  · intro wellFormed violation isViolation
    obtain ⟨place, node, contains, breaks⟩ := mem_violations_iff_contains.mp isViolation
    exact lawful_iff_not_breaks.mp (wellFormed place node contains) violation breaks

/-- Verification decides whether a schema is well-formed.  If it is not, the first violation
in the order of the check is reported, with what it is about; and the list that it is taken
from has exactly the violations that the schemas of the tree commit. -/
theorem verify_reports_first_violation (root : Schema) :
    (root.verify = .ok () ↔ root.WellFormed) ∧
    (∀ violation, root.verify = .error violation ↔
      (violations root true root).head? = some violation) ∧
    (∀ violation, violation ∈ violations root true root ↔
      ∃ place node, root.Contains place node ∧ Breaks root place.isEmpty node violation) := by
  refine ⟨verify_eq_ok_iff, fun violation => ?_, fun violation => mem_violations_iff_contains⟩
  rw [verify, check_eq_firstOf, firstOf_eq_error_iff]

/-- What a branch violates by itself is reported before its form. -/
example : verify { discriminator := some ⟨"kind", [("leaf", { enum := some [] })]⟩ } =
    .error .emptyEnum :=
  rfl

end FormSchema.Schema
